import GameHop.Verifier.Cache
import Mathlib.Data.List.TakeWhile

/-!
Cache files over time. What a cache keeps is appended to its file, a line for each digest, and a
later load reads the lines of the whole file.
-/

namespace GameHop

/-! ## Files that grow -/

namespace FileTree

/-- The text at a path, empty if there is no file. -/
def textOf (t : FileTree) (path : String) : String :=
  match t.read path with
  | .ok text => text
  | .error _ => ""

theorem isDirAt_iff {t : FileTree} {place : List String} : t.isDirAt place = true ↔
    place = [] ∨ (∃ d ∈ t.dirs, place <+: d) ∨ ∃ f ∈ t.files.map (·.1), place <+: f ∧ place ≠ f := by
  simp [isDirAt, or_assoc]

theorem isDirAt_of_prefix {t : FileTree} {place inner : List String} (h : t.isDirAt inner = true)
    (hp : place <+: inner) : t.isDirAt place = true := by
  rw [isDirAt_iff] at h ⊢
  rcases h with rfl | ⟨d, hd, h⟩ | ⟨f, hf, h, hne⟩
  · exact .inl (List.prefix_nil.1 hp)
  · exact .inr (.inl ⟨d, hd, hp.trans h⟩)
  · refine .inr (.inr ⟨f, hf, hp.trans h, ?_⟩)
    rintro rfl
    exact hne (h.eq_of_length_le hp.length_le)

/-- A file in a directory makes no other directory. -/
theorem isDirAt_putAt {t : FileTree} {place : List String} (h : t.isDirAt place.dropLast = true)
    (text : String) (p : List String) : (t.putAt place text).isDirAt p = t.isDirAt p := by
  have hkeys : ∀ f, f ∈ (t.putAt place text).files.map (·.1) ↔ f = place ∨ f ∈ t.files.map (·.1) := by
    intro f
    rw [putAt, keys_insertEntry]
    split
    · exact ⟨.inr, fun hf => hf.elim (fun hf => hf ▸ ‹_›) id⟩
    · rw [List.mem_append, List.mem_singleton, or_comm]
  rw [Bool.eq_iff_iff]
  constructor
  · intro hdir
    rcases isDirAt_iff.1 hdir with rfl | hd | ⟨f, hf, hp, hne⟩
    · exact isDirAt_iff.2 (.inl rfl)
    · exact isDirAt_iff.2 (.inr (.inl hd))
    · rcases (hkeys f).1 hf with rfl | hf
      · refine isDirAt_of_prefix h ?_
        rw [List.dropLast_eq_take]
        refine List.prefix_take_iff.2 ⟨hp, ?_⟩
        have := hp.length_le
        have : p.length ≠ f.length := fun he => hne (hp.eq_of_length he)
        omega
      · exact isDirAt_iff.2 (.inr (.inr ⟨f, hf, hp, hne⟩))
  · intro hp
    rcases isDirAt_iff.1 hp with rfl | hd | ⟨f, hf, hp⟩
    · exact isDirAt_iff.2 (.inl rfl)
    · exact isDirAt_iff.2 (.inr (.inl hd))
    · exact isDirAt_iff.2 (.inr (.inr ⟨f, (hkeys f).2 (.inr hf), hp⟩))

theorem walk_of_isDirAt {t t' : FileTree} (h : ∀ p, t'.isDirAt p = t.isDirAt p) (names : List String) :
    ∀ {start place : List String}, t.walk start names = .ok place → t'.walk start names = .ok place := by
  induction names with
  | nil => exact id
  | cons name names ih =>
    intro start place hw
    simp only [walk, h] at hw ⊢
    split at hw
    · split_ifs at hw ⊢ <;> simp_all
    · split at hw <;> cases hw

theorem resolve_of_isDirAt {t t' : FileTree} (h : ∀ p, t'.isDirAt p = t.isDirAt p)
    (hroot : t'.root = t.root) {path : String} {place : List String}
    (hr : t.resolve path = .ok place) : t'.resolve path = .ok place := by
  simp only [resolve, belowRoot?, hroot] at hr ⊢
  split_ifs at hr ⊢ <;> exact walk_of_isDirAt h _ hr

/-- **A file holds its old text and what was appended.** -/
theorem read_append {t t' : FileTree} {path text : String} (h : t.append path text = .ok t') :
    t'.read path = .ok (t.textOf path ++ text) := by
  cases hw : t.writable path with
  | error f => simp [append, hw, bind, Except.bind] at h
  | ok place =>
    obtain rfl : t.putAt place ((t.fileAt? place).getD "" ++ text) = t' := by
      simpa [append, hw, bind, Except.bind, pure, Except.pure] using h
    cases hr : t.resolve path with
    | error f => simp [writable, hr, bind, Except.bind] at hw
    | ok place' =>
      simp only [writable, hr, bind, Except.bind, pure, Except.pure, throw, throwThe, MonadExceptOf.throw] at hw
      split_ifs at hw with hdir hslash hparent
      all_goals try cases hw
      have hr' := resolve_of_isDirAt (isDirAt_putAt hparent ((t.fileAt? place).getD "" ++ text)) rfl hr
      have htext : t.textOf path = (t.fileAt? place).getD "" := by
        cases hf : t.fileAt? place <;> simp [textOf, read, hr, hf, hdir, hslash, bind, Except.bind, throw, throwThe,
          MonadExceptOf.throw, pure, Except.pure]
      simp [read, hr', fileAt_putAt, hslash, htext, bind, Except.bind, pure, Except.pure]

end FileTree

/-! ## Lines that grow -/

namespace Text

/-- What comes after the last line end. -/
def lastLine (cs : List Char) : List Char :=
  (splitLines cs).getLastD []

theorem splitLines_cons {c : Char} (h : c ≠ '\n') (cs : List Char) :
    splitLines (c :: cs) = (c :: (splitLines cs).headD []) :: (splitLines cs).tail := by
  rw [splitLines]
  · cases splitLines cs <;> rfl
  · exact h

theorem splitLines_line {d : List Char} (hd : '\n' ∉ d) : splitLines (d ++ ['\n']) = [d, []] := by
  induction d with
  | nil => rfl
  | cons c d ih =>
    rw [List.cons_append, splitLines_cons (by grind), ih (by grind)]
    rfl

theorem lastLine_eq {cs l : List Char} {full : List (List Char)} (h : splitLines cs = full ++ [l]) :
    lastLine cs = l := by
  simp [lastLine, h]

/-- A line that is appended goes on where the text ends. -/
theorem splitLines_append_line (cs : List Char) {d : List Char} (hd : '\n' ∉ d) :
    ∃ full last, splitLines cs = full ++ [last] ∧
      splitLines (cs ++ (d ++ ['\n'])) = full ++ [last ++ d, []] := by
  induction cs with
  | nil => exact ⟨[], [], rfl, splitLines_line hd⟩
  | cons c cs ih =>
    obtain ⟨full, last, hcs, happend⟩ := ih
    by_cases h : c = '\n'
    · subst h
      exact ⟨[] :: full, last, by simp [splitLines, hcs], by simp [splitLines, happend]⟩
    · rw [List.cons_append, splitLines_cons h, splitLines_cons h, hcs, happend]
      cases full with
      | nil => exact ⟨[], c :: last, rfl, rfl⟩
      | cons l full => exact ⟨(c :: l) :: full, last, rfl, rfl⟩

theorem trim_append {a d : List Char} (hd : ∀ c ∈ d, isBlank c = false) (hne : d ≠ []) :
    trim (a ++ d) = a.dropWhile isBlank ++ d := by
  have hkeep : ∀ {l r : List Char}, (∀ c ∈ l, isBlank c = false) → l ≠ [] →
      (l ++ r).dropWhile isBlank = l ++ r := by
    intro l r hl hne
    obtain ⟨c, l, rfl⟩ := List.exists_cons_of_ne_nil hne
    simp [hl c]
  have hstart : (a ++ d).dropWhile isBlank = a.dropWhile isBlank ++ d := by
    have hself := hkeep (r := []) hd hne
    rw [List.append_nil] at hself
    rw [List.dropWhile_append, hself]
    split
    · rename_i h
      rw [List.isEmpty_iff.1 h, List.nil_append]
    · rfl
  rw [trim, hstart, trimEnd, List.reverse_append, hkeep (by simpa using hd) (by simpa using hne)]
  simp

end Text

/-! ## Digests -/

theorem Base64.length_encode (bytes : List UInt8) :
    (encode bytes).length = 4 * ((bytes.length + 2) / 3) := by
  fun_induction encode bytes with
  | case1 | case2 | case3 => simp
  | case4 a b c rest n ih =>
    simp only [List.length_cons, ih]
    omega

theorem Base64.not_blank_of_mem_encode (bytes : List UInt8) :
    ∀ c ∈ encode bytes, Text.isBlank c = false := by
  have hdigit : ∀ n, Text.isBlank (digit n) = false := by
    intro n
    have hall : ('=' :: alphabet).all (!Text.isBlank ·) = true := rfl
    have hmem : digit n ∈ '=' :: alphabet := by
      rw [digit]
      cases h : alphabet[n % 64]? with
      | none => exact List.mem_cons_self
      | some c => exact List.mem_cons_of_mem _ (List.mem_of_getElem? h)
    simpa using List.all_eq_true.1 hall _ hmem
  have hpad : Text.isBlank '=' = false := by decide
  fun_induction encode bytes with
  | case1 => simp
  | case2 | case3 => simp [hdigit, hpad]
  | case4 a b c rest n ih => simpa [hdigit] using ih

theorem length_digest (program : String) : (digest program).toList.length = 64 := by
  simp [digest, Base64.length_encode, Sha384.hash, Sha384.bytesOfNat]

theorem not_blank_of_mem_digest (program : String) :
    ∀ c ∈ (digest program).toList, Text.isBlank c = false := by
  rw [digest, String.toList_ofList]
  exact Base64.not_blank_of_mem_encode _

namespace ProofCache

/-- The lines of digests that are kept. -/
def written (ds : List String) : String :=
  String.join (ds.map (· ++ "\n"))

/-- Keeps programs, one after the other. -/
def insertAll (c : ProofCache) (files : FileTree) :
    List String → Except FileFault (ProofCache × FileTree)
  | [] => .ok (c, files)
  | program :: programs => do
    let (c, files) ← c.insert files program
    c.insertAll files programs

/-- Whether there are only blanks after the last line end. -/
def EndsBlank (text : String) : Prop :=
  ∀ c ∈ Text.lastLine text.toList, Text.isBlank c = true

/-- What lines say, blank lines apart. -/
def entriesOf (ls : List (List Char)) : List String :=
  ((ls.map Text.trim).filter (· != [])).map String.ofList

/-- What the lines of a text say. -/
def entries (text : String) : List String :=
  entriesOf (Text.splitLines text.toList)

/-- The part of an entry that an open line gives to the digest after it. -/
def openPart (text : String) : String :=
  String.ofList ((Text.lastLine text.toList).dropWhile Text.isBlank)

theorem openPart_eq_empty_iff {text : String} : openPart text = "" ↔ EndsBlank text := by
  rw [openPart, ← String.toList_inj, String.toList_ofList, String.toList_empty, List.dropWhile_eq_nil_iff]
  rfl

theorem entriesOf_lastLine {text : String} (h : EndsBlank text) :
    entriesOf [Text.lastLine text.toList] = [] := by
  have hdrop := List.dropWhile_eq_nil_iff.2 h
  simp [entriesOf, Text.trim, Text.trimEnd, hdrop]

/-- **A digest at the end of a text** is put together with what the last line holds. -/
theorem entries_append_line (text program : String) :
    ∃ full, entries text = full ++ entriesOf [Text.lastLine text.toList] ∧
      entries (text ++ (digest program ++ "\n")) = full ++ [openPart text ++ digest program] ∧
      EndsBlank (text ++ (digest program ++ "\n")) := by
  have hd := not_blank_of_mem_digest program
  have hne : (digest program).toList ≠ [] := fun h => by simpa [h] using length_digest program
  have hbreak : '\n' ∉ (digest program).toList := fun h => by simpa [Text.isBlank] using hd _ h
  obtain ⟨full, last, htext, happend⟩ := Text.splitLines_append_line text.toList hbreak
  have happend : Text.splitLines (text ++ (digest program ++ "\n")).toList =
      full ++ [last ++ (digest program).toList, []] := by
    simpa using happend
  refine ⟨entriesOf full, ?_, ?_, ?_⟩
  · rw [entries, htext, Text.lastLine_eq htext]
    simp [entriesOf]
  · have hjoin : String.ofList (last.dropWhile Text.isBlank ++ (digest program).toList) =
        String.ofList (last.dropWhile Text.isBlank) ++ digest program := by
      simp
    rw [entries, happend, openPart, Text.lastLine_eq htext, ← hjoin]
    simp [entriesOf, Text.trim_append hd hne, hne, show Text.trim [] = [] from rfl]
  · rw [List.append_cons] at happend
    rw [EndsBlank, Text.lastLine_eq happend]
    simp

theorem written_cons (d : String) (ds : List String) : written (d :: ds) = d ++ "\n" ++ written ds := by
  simp [written, String.join_cons]

/-- Digests after a text that ends in blanks are entries. -/
theorem entries_append_written {ds : List String} (hds : ∀ d ∈ ds, ∃ program, digest program = d) :
    ∀ {text : String}, EndsBlank text → entries (text ++ written ds) = entries text ++ ds := by
  induction ds with
  | nil => simp [written]
  | cons d ds ih =>
    intro text htext
    obtain ⟨program, rfl⟩ := hds d (by simp)
    obtain ⟨full, hfull, happend, hends⟩ := entries_append_line text program
    rw [written_cons, ← String.append_assoc, ih (fun d hd => hds d (by simp [hd])) hends, happend, hfull,
      entriesOf_lastLine htext, openPart_eq_empty_iff.2 htext]
    simp

/-! ## Runs -/

theorem load_eq {files : FileTree} {path : String} {c : ProofCache} (h : load files path = .ok c) :
    c = ⟨some path, (entries (files.textOf path)).eraseDups⟩ := by
  rw [load] at h
  rw [FileTree.textOf]
  split at h <;> cases h <;> simp_all
  · rfl
  · rfl

theorem load_of_read {files : FileTree} {path text : String} (h : files.read path = .ok text) :
    load files path = .ok ⟨some path, (entries text).eraseDups⟩ := by
  rw [load, h]
  rfl

/-- A program that is new gives a line; otherwise nothing changes. -/
theorem insert_cases {c c' : ProofCache} {files files' : FileTree} {path program : String}
    (hpath : c.path = some path) (h : c.insert files program = .ok (c', files')) :
    (digest program ∈ c.digests ∧ c' = c ∧ files' = files) ∨
      (digest program ∉ c.digests ∧ c' = ⟨some path, c.digests ++ [digest program]⟩ ∧
        files'.read path = .ok (files.textOf path ++ (digest program ++ "\n"))) := by
  simp only [insert, hpath, List.contains_iff_mem] at h
  split at h
  · cases h
    exact .inl ⟨‹_›, rfl, rfl⟩
  · cases happend : files.append path (digest program ++ "\n") with
    | error f => simp [happend, bind, Except.bind] at h
    | ok t =>
      simp only [happend, bind, Except.bind, pure, Except.pure] at h
      cases h
      exact .inr ⟨‹_›, by rw [← hpath], FileTree.read_append happend⟩

/-- **What programs add**: a line for each digest that was not there, in the order of their first
    programs. -/
theorem insertAll_grows {path : String} (programs : List String) :
    ∀ {c c' : ProofCache} {files files' : FileTree}, c.path = some path →
      c.insertAll files programs = .ok (c', files') → (∃ r, load files path = .ok r) →
      ∃ new, new.Nodup ∧ (∀ d, d ∈ new ↔ d ∈ programs.map digest ∧ d ∉ c.digests) ∧
        c' = ⟨some path, c.digests ++ new⟩ ∧ files'.textOf path = files.textOf path ++ written new ∧
        ∃ r, load files' path = .ok r := by
  induction programs with
  | nil =>
    intro c c' files files' hpath h hload
    cases h
    exact ⟨[], .nil, by simp, by simp [← hpath], by simp [written], hload⟩
  | cons program programs ih =>
    intro c c' files files' hpath h hload
    cases hstep : c.insert files program with
    | error f => simp [insertAll, hstep, bind, Except.bind] at h
    | ok r =>
      obtain ⟨c₁, files₁⟩ := r
      simp only [insertAll, hstep, bind, Except.bind] at h
      rcases insert_cases hpath hstep with ⟨hmem, rfl, rfl⟩ | ⟨hmem, rfl, hread⟩
      · obtain ⟨new, hnodup, hnew, hrest⟩ := ih hpath h hload
        refine ⟨new, hnodup, fun d => ?_, hrest⟩
        rw [hnew, List.map_cons, List.mem_cons]
        grind
      · obtain ⟨new, hnodup, hnew, hc, htext, hload⟩ := ih rfl h ⟨_, load_of_read hread⟩
        refine ⟨digest program :: new, ?_, fun d => ?_, by simpa using hc, ?_, hload⟩
        · simp [hnodup, hnew]
        · simp only [List.mem_cons, hnew, List.map_cons, List.mem_append]
          grind
        · rw [htext, FileTree.textOf, hread, written_cons]
          simp [String.append_assoc]

theorem eraseDups_of_nodup {α : Type} [BEq α] [LawfulBEq α] {l : List α} (h : l.Nodup) :
    l.eraseDups = l := by
  induction l with
  | nil => rfl
  | cons a l ih =>
    have ha : l.filter (fun b => !b == a) = l := List.filter_eq_self.2 fun b hb => by grind
    rw [List.eraseDups_cons, ha, ih (List.nodup_cons.1 h).2]

/-- **What a load finds after programs were kept.** Each digest that was not there is appended once. If
    the file ended in blanks, or nothing is appended, the load gives what the cache holds; otherwise the
    first digest that is appended is lost, as it becomes the end of the line that was open. -/
theorem load_insertAll {files files' : FileTree} {path : String} {c c' : ProofCache}
    {programs : List String} (hload : load files path = .ok c)
    (hinsert : c.insertAll files programs = .ok (c', files')) :
    ∃ (new : List String) (r : ProofCache),
      new.Nodup ∧ (∀ d, d ∈ new ↔ d ∈ programs.map digest ∧ d ∉ c.digests) ∧
      files'.textOf path = files.textOf path ++ written new ∧
      c' = ⟨some path, c.digests ++ new⟩ ∧ load files' path = .ok r ∧
      ((∀ d, d ∈ r.digests ↔ d ∈ c'.digests) ↔ EndsBlank (files.textOf path) ∨ new = []) ∧
      (EndsBlank (files.textOf path) ∨ new = [] → r = c') ∧
      ∀ d ds, new = d :: ds → ¬EndsBlank (files.textOf path) →
        d ∉ r.digests ∧ openPart (files.textOf path) ++ d ∈ r.digests ∧ ds ⊆ r.digests := by
  have hc := load_eq hload
  obtain ⟨new, hnodup, hnew, hc', htext, r, hr⟩ :=
    insertAll_grows programs (by rw [hc]) hinsert ⟨c, hload⟩
  have hrdigests := load_eq hr
  have hdigest : ∀ d ∈ new, ∃ program, digest program = d := fun d hd => by
    obtain ⟨program, -, h⟩ := List.mem_map.1 ((hnew d).1 hd).1
    exact ⟨program, h⟩
  have hsame : EndsBlank (files.textOf path) ∨ new = [] → r = c' := by
    intro h
    have hentries : entries (files'.textOf path) = entries (files.textOf path) ++ new := by
      rcases h with h | rfl
      · rw [htext, entries_append_written hdigest h]
      · simp [htext, written]
    have hnone : new.removeAll (entries (files.textOf path)) = new :=
      List.filter_eq_self.2 fun d hd => by simpa [hc] using ((hnew d).1 hd).2
    have hdups : (new.removeAll (entries (files.textOf path))).eraseDups = new := by
      rw [hnone, eraseDups_of_nodup hnodup]
    rw [hrdigests, hc', hentries, List.eraseDups_append, hdups, hc]
  have hlost : ∀ d ds, new = d :: ds → ¬EndsBlank (files.textOf path) →
      d ∉ r.digests ∧ openPart (files.textOf path) ++ d ∈ r.digests ∧ ds ⊆ r.digests := by
    rintro d ds rfl hopen
    obtain ⟨program, rfl⟩ := hdigest d (by simp)
    obtain ⟨full, hfull, happend, hends⟩ := entries_append_line (files.textOf path) program
    have hentries : entries (files'.textOf path) =
        full ++ [openPart (files.textOf path) ++ digest program] ++ ds := by
      rw [htext, written_cons, ← String.append_assoc,
        entries_append_written (fun d hd => hdigest d (by simp [hd])) hends, happend]
    have hmem : ∀ x, x ∈ r.digests ↔
        x ∈ full ∨ x = openPart (files.textOf path) ++ digest program ∨ x ∈ ds := by
      simp [hrdigests, hentries]
    refine ⟨fun h => ?_, (hmem _).2 (.inr (.inl rfl)), fun x hx => (hmem x).2 (.inr (.inr hx))⟩
    rcases (hmem _).1 h with h | h | h
    · refine ((hnew _).1 List.mem_cons_self).2 ?_
      simp [hc, hfull, h]
    · have hempty := congrArg String.toList h
      exact hopen (openPart_eq_empty_iff.1 (by simpa [List.self_eq_append_left] using hempty))
    · exact (List.nodup_cons.1 hnodup).1 h
  refine ⟨new, r, hnodup, hnew, htext, hc', hr, ⟨fun h => ?_, fun h => by simp [hsame h]⟩, hsame, hlost⟩
  by_contra hnot
  obtain ⟨hopen, hne⟩ := not_or.1 hnot
  obtain ⟨d, ds, rfl⟩ := List.exists_cons_of_ne_nil hne
  refine (hlost d ds rfl hopen).1 ((h d).2 ?_)
  simp [hc']

/-- A cache file that ends in the middle of a line. -/
def openFile : FileTree :=
  ⟨"/", [(["c"], "x")], []⟩

/-- The file with the line of a program. -/
def joinedFile (program : String) : FileTree :=
  ⟨"/", [(["c"], "x" ++ (digest program ++ "\n"))], []⟩

theorem insertAll_openFile (program : String) :
    insertAll ⟨some "c", ["x"]⟩ openFile [program] =
      .ok (⟨some "c", ["x", digest program]⟩, joinedFile program) := by
  have hne : digest program ≠ "x" := fun h => by simpa [h] using length_digest program
  have happend : ∀ s, openFile.append "c" s = .ok ⟨"/", [(["c"], "x" ++ s)], []⟩ := fun _ => rfl
  simp [insertAll, insert, hne, happend, joinedFile, bind, Except.bind, pure, Except.pure]

/-- The program whose line is joined to an open one. -/
theorem load_insertAll_openFile :
    load openFile "c" = .ok ⟨some "c", ["x"]⟩ ∧
    insertAll ⟨some "c", ["x"]⟩ openFile ["p"] =
      .ok (⟨some "c", ["x", digest "p"]⟩, joinedFile "p") ∧
    ∃ r, load (joinedFile "p") "c" = .ok r ∧ digest "p" ∉ r.digests := by
  refine ⟨rfl, insertAll_openFile "p", ?_⟩
  obtain ⟨new, r, -, hnew, -, hc, hr, -, -, hlost⟩ :=
    load_insertAll (show load openFile "c" = .ok ⟨some "c", ["x"]⟩ from rfl) (insertAll_openFile "p")
  have hnew : new = [digest "p"] := by simpa using (congrArg digests hc).symm
  refine ⟨r, hr, (hlost _ _ hnew ?_).1⟩
  intro h
  exact absurd (h 'x' (by decide)) (by decide)

/-- **A digest in an open line is lost.** -/
theorem digest_lost_in_open_line :
    load openFile "c" = .ok ⟨some "c", ["x"]⟩ ∧
    insertAll ⟨some "c", ["x"]⟩ openFile ["p"] =
      .ok (⟨some "c", ["x", digest "p"]⟩, joinedFile "p") ∧
    load (joinedFile "p") "c" = .ok ⟨some "c", ["x" ++ digest "p"]⟩ ∧ "x" ++ digest "p" ≠ digest "p" := by
  refine ⟨rfl, insertAll_openFile "p", ?_, fun h => by simpa using congrArg (·.toList.length) h⟩
  obtain ⟨full, hfull, happend, -⟩ := entries_append_line "x" "p"
  have hfull : full = [] := by
    have h : ["x"] = full ++ ["x"] := hfull
    simpa using h
  rw [load_of_read (show (joinedFile "p").read "c" = .ok ("x" ++ (digest "p" ++ "\n")) from rfl), happend,
    hfull]
  rfl

end ProofCache

end GameHop
