import GameHop.Command.Run
import GameHop.Proofs.Reading.DevelopmentLayouts
import GameHop.Proofs.Reading.Developments
import Mathlib

/-!
Formatting and reading. **The canonical text of a development that was read from a text is read as
the same development** but for its places.
-/

namespace GameHop

open GameHop.Parser

theorem Development.AsRead.parse_text {d : Development} (h : d.AsRead) :
    ∃ d', parse d.text = .ok d' ∧ d'.bare = d.bare := by
  obtain ⟨d', hparse, hbare, -⟩ := faithful.readSource_text h.tidy h.run_development
  exact ⟨d', hparse, hbare⟩

theorem Development.text_congr {d d' : Development} (h : d'.bare = d.bare) : d'.text = d.text := by
  rw [← d'.text_bare, h, d.text_bare]

/-! ## The command -/

namespace Command

section

variable {host : Host} {files : FileTree} {args : List String} {o : Options} {path : String}
  {checkOnly : Bool}

theorem run_files_bind {α : Type} (next : FileTree → CommandM α) (p : Progress) :
    (CommandM.files >>= next).run.run p = (next p.files).run.run p :=
  rfl

theorem run_print (text : String) (files : FileTree) :
    (CommandM.print text).run.run ⟨"", files⟩ = (.ok (), ⟨text, files⟩) :=
  congrArg (fun output => (Except.ok (), Progress.mk output files)) String.empty_append

theorem run_of_format {p : Progress}
    (hargs : Request.ofArguments args = .ok (.act o (.format path checkOnly)))
    (h : (format path checkOnly).run.run ⟨"", files⟩ = (.ok (), p)) :
    run host files args = ⟨0, p.output, none, p.files⟩ := by
  simp only [run, hargs, Action.run, h]

/-- A file that can be read as a development is printed in its canonical form. -/
theorem run_format {text : String} {d : Development}
    (hargs : Request.ofArguments args = .ok (.act o (.format path false)))
    (hread : files.read path = .ok text) (hparse : Development.parse text = .ok d) :
    run host files args = ⟨0, d.text, none, files⟩ := by
  refine run_of_format hargs (p := ⟨d.text, files⟩) ?_
  rw [format, run_files_bind, hread]
  dsimp only
  rw [hparse]
  exact run_print _ files

/-- A file in its canonical form passes. -/
theorem run_format_check {text : String} {d : Development}
    (hargs : Request.ofArguments args = .ok (.act o (.format path true)))
    (hread : files.read path = .ok text) (hparse : Development.parse text = .ok d)
    (htext : d.text = text) :
    run host files args = ⟨0, path ++ ": formatted\n", none, files⟩ := by
  refine run_of_format hargs (p := ⟨path ++ ": formatted\n", files⟩) ?_
  rw [format, run_files_bind, hread]
  dsimp only
  rw [hparse]
  simp only [htext, BEq.rfl]
  exact run_print _ files

/-- A call that prints a file without a complaint has read a development in it. -/
theorem parse_of_run_format
    (hargs : Request.ofArguments args = .ok (.act o (.format path false)))
    (hstatus : (run host files args).status = 0) :
    ∃ text d, files.read path = .ok text ∧ Development.parse text = .ok d := by
  have hfails : ∀ {e p}, (format path false).run.run ⟨"", files⟩ ≠ (.error e, p) := by
    intro e p h
    simp [run, hargs, Action.run, h] at hstatus
  rw [format, run_files_bind] at hfails
  cases hread : files.read path with
  | error f =>
    rw [hread] at hfails
    exact absurd rfl hfails
  | ok text =>
    refine ⟨text, ?_⟩
    rw [hread] at hfails
    cases hparse : Development.parse text with
    | error e =>
      dsimp only at hfails
      rw [hparse] at hfails
      exact absurd rfl hfails
    | ok d => exact ⟨d, rfl, rfl⟩

end

end Command

open Command

/-- **The canonical text is read as what it was made from.** A development that was read is read again
    from its canonical text, up to places, and formatting that text changes nothing. The command prints
    the canonical text of every file that can be read, and whatever it prints without a complaint passes
    the check in any file. -/
theorem Development.formatted_roundTrip :
    (∀ {source : String} {d : Development}, Development.parse source = .ok d →
      ∃ d', Development.parse d.text = .ok d' ∧ d'.bare = d.bare ∧ d'.text = d.text) ∧
    ∀ (host : Host) {files : FileTree} {args : List String} {o : Options} {path : String},
      Request.ofArguments args = .ok (.act o (.format path false)) →
      (∀ {source : String} {d : Development}, files.read path = .ok source →
        Development.parse source = .ok d → run host files args = ⟨0, d.text, none, files⟩) ∧
      ((run host files args).status = 0 →
        ∀ {files' : FileTree} {args' : List String} {o' : Options} {path' : String},
          Request.ofArguments args' = .ok (.act o' (.format path' true)) →
          files'.read path' = .ok (run host files args).output →
          run host files' args' = ⟨0, path' ++ ": formatted\n", none, files'⟩) := by
  have hagain : ∀ {source : String} {d : Development}, Development.parse source = .ok d →
      ∃ d', Development.parse d.text = .ok d' ∧ d'.bare = d.bare ∧ d'.text = d.text := by
    intro source d h
    obtain ⟨d', hparse, hbare⟩ := (Development.asRead_of_parse h).parse_text
    exact ⟨d', hparse, hbare, Development.text_congr hbare⟩
  refine ⟨hagain, fun host files args o path hargs => ⟨run_format hargs, ?_⟩⟩
  intro hstatus files' args' o' path' hargs' hread'
  obtain ⟨source, d, hread, hparse⟩ := parse_of_run_format hargs hstatus
  rw [run_format hargs hread hparse] at hread'
  obtain ⟨d', hparse', -, htext⟩ := hagain hparse
  exact run_format_check hargs' hread' hparse' htext

/-- A theorem without a space that could be left out. -/
def Development.crampedSource : String :=
  "theorem T():f((0))~[n*adv]f(n)\x7b~[b]with method m()\x7b\x7d\x7b" ++
  "bisim\x7binvariant,checkpoint(a,b):(c==d);\x7d\x7dhybrid(S,0,n);\x7d"

/-- The canonical text of that theorem. -/
def Development.crampedText : String :=
  "theorem T(): f((0)) ~[n * adv] f(n) \x7b\n" ++
  "    ~[b] with method m() \x7b\n        0\n    \x7d \x7b\n" ++
  "        bisim \x7b\n            invariant, checkpoint(a, b): (c == d);\n        \x7d\n" ++
  "    \x7d\n    hybrid(S, 0, n);\n\x7d\n"

/-- Parentheses stay, and a method without a body gets one. -/
theorem Development.formatted_roundTrip_cramped :
    ∃ (host : Host) (d d' : Development), Development.parse crampedSource = .ok d ∧
      d.text = crampedText ∧ Development.parse crampedText = .ok d' ∧ d'.bare = d.bare ∧
      d'.text = crampedText ∧
      run host ⟨"/", [(["a.qvl"], crampedSource)], []⟩ ["fmt", "a.qvl"] =
        ⟨0, crampedText, none, ⟨"/", [(["a.qvl"], crampedSource)], []⟩⟩ ∧
      run host ⟨"/", [(["a.qvl"], crampedText)], []⟩ ["fmt", "--check", "a.qvl"] =
        ⟨0, "a.qvl: formatted\n", none, ⟨"/", [(["a.qvl"], crampedText)], []⟩⟩ := by
  obtain ⟨d, hparse, htext⟩ : ∃ d, Development.parse crampedSource = .ok d ∧
      Development.text d = crampedText :=
    exists_of_map_toOption (by decide +kernel)
  have hargs : Request.ofArguments ["fmt", "a.qvl"] =
      .ok (.act {} (.format "a.qvl" false)) := rfl
  have hargs' : Request.ofArguments ["fmt", "--check", "a.qvl"] =
      .ok (.act {} (.format "a.qvl" true)) := rfl
  let host : Host := ⟨fun _ _ _ files => (.error .notFound, files), 1⟩
  obtain ⟨hagain, hcommand⟩ := Development.formatted_roundTrip
  obtain ⟨d', hparse', hbare, htext'⟩ := hagain hparse
  have hprint : run host ⟨"/", [(["a.qvl"], crampedSource)], []⟩ ["fmt", "a.qvl"] = _ :=
    (hcommand host hargs).1 rfl hparse
  have hcheck : run host ⟨"/", [(["a.qvl"], d.text)], []⟩ ["fmt", "--check", "a.qvl"] = _ :=
    (hcommand host hargs).2 (congrArg Outcome.status hprint) hargs' (by rw [hprint]; rfl)
  rw [htext] at hprint hparse' htext' hcheck
  exact ⟨host, d, d', hparse, htext, hparse', hbare, htext', hprint, hcheck⟩

end GameHop
