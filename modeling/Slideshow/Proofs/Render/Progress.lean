import Mathlib.Data.List.DropRight
import Mathlib.Data.List.Induction
import Mathlib.Data.List.Infix
import Slideshow.Render.Runner

/-! # What the messages of a render come to

`Progress.after` says what is known after some lines without going through them in order: for every
field, the last line that gives it a value. Reading a line with `Progress.read` is one step of that
(`after_concat`), a line that reports no progress is no step at all (`read_of_not_progress`), and so
the reports and the kept lines of a run are told by its lines alone (`messages_accounted`). -/

namespace Slideshow

namespace Progress

/-! ## What a line says -/

/-- The value of a line with a key. -/
def valueOf? (key line : String) : Option String :=
  (split? line).bind fun (k, value) => if k = key then some value else none

def frameOf? (line : String) : Option ℕ :=
  valueOf? "frame" line >>= Decimal.natBelow? UInt64.size

def fpsOf? (line : String) : Option Float := valueOf? "fps" line >>= Decimal.float?

/-- Milliseconds of output; both keys are followed by microseconds. -/
def outTimeMsOf? (line : String) : Option ℤ :=
  ((valueOf? "out_time_ms" line <|> valueOf? "out_time_us" line) >>= int64?).map (·.tdiv 1000)

def speedOf? (line : String) : Option Float := valueOf? "speed" line >>= speed?

/-- Whether a line asks for a report. -/
def asksReport (line : String) : Bool := (valueOf? "progress" line).isSome

/-- Whether a line says that the render is complete. -/
def saysEnd (line : String) : Bool := valueOf? "progress" line = some "end"

/-- The last value that lines give, where `value?` reads it from a line. -/
def latest {α : Type} (value? : String → Option α) (otherwise : α) (lines : List String) : α :=
  (lines.filterMap value?).getLast?.getD otherwise

/-- What is known after some lines. -/
def after (lines : List String) : Progress where
  frame := latest frameOf? 0 lines
  fps := latest fpsOf? 0.0 lines
  outTimeMs := latest outTimeMsOf? 0 lines
  outTime := latest (valueOf? "out_time") "" lines
  speed := latest speedOf? 0.0 lines
  isComplete := lines.any saysEnd

theorem latest_concat {α : Type} (value? : String → Option α) (otherwise : α)
    (lines : List String) (line : String) :
    latest value? otherwise (lines ++ [line]) =
      (value? line).getD (latest value? otherwise lines) := by
  cases h : value? line <;> simp [latest, List.filterMap_append, h]

/-! ## Reading a line -/

/-- A line gives every field the value that it says, and leaves the others. -/
theorem read_fst (p : Progress) (line : String) :
    (p.read line).1 =
      { frame := (frameOf? line).getD p.frame
        fps := (fpsOf? line).getD p.fps
        outTimeMs := (outTimeMsOf? line).getD p.outTimeMs
        outTime := (valueOf? "out_time" line).getD p.outTime
        speed := (speedOf? line).getD p.speed
        isComplete := p.isComplete || saysEnd line } := by
  cases hline : split? line with
  | none =>
      simp [read, frameOf?, fpsOf?, outTimeMsOf?, speedOf?, saysEnd, valueOf?, hline]
  | some pair =>
      obtain ⟨key, value⟩ := pair
      simp only [read, frameOf?, fpsOf?, outTimeMsOf?, speedOf?, saysEnd, valueOf?, hline,
        Option.bind_some]
      unfold update
      split
      · cases h : int64? value <;> simp [h]
      · cases h : int64? value <;> simp [h]
      · simp
      · cases h : Decimal.natBelow? UInt64.size value <;> simp [h]
      · cases h : Decimal.float? value <;> simp [h]
      · cases h : speed? value <;> simp [h]
      · by_cases h : value = "end" <;> simp [h]
      · simp_all

/-- A line is reported on exactly if it asks for that. -/
theorem read_snd (p : Progress) (line : String) :
    (p.read line).2 = if asksReport line then some (p.read line).1 else none := by
  cases hline : split? line with
  | none => simp [read, asksReport, valueOf?, hline]
  | some pair =>
      by_cases hkey : pair.1 = "progress" <;> simp [read, asksReport, valueOf?, hline, hkey]

theorem after_concat (lines : List String) (line : String) :
    after (lines ++ [line]) = ((after lines).read line).1 := by
  rw [read_fst]
  simp only [after, latest_concat, List.any_append, List.any_cons, List.any_nil, Bool.or_false]

/-- Only a line with one of the keys says anything. -/
theorem valueOf?_of_not_progress {key line : String} (hkey : key ∈ keys)
    (h : isProgressLine line = false) : valueOf? key line = none := by
  cases hline : split? line with
  | none => simp [valueOf?, hline]
  | some pair =>
      have hpair : pair.1 ∉ keys := by simpa [isProgressLine, hline] using h
      have hne : pair.1 ≠ key := fun heq => hpair (heq ▸ hkey)
      simp [valueOf?, hline, hne]

theorem asksReport_of_not_progress {line : String} (h : isProgressLine line = false) :
    asksReport line = false := by
  rw [asksReport, valueOf?_of_not_progress (by simp [keys]) h]
  rfl

/-- A line that reports no progress changes nothing and is not reported on. -/
theorem read_of_not_progress (p : Progress) {line : String} (h : isProgressLine line = false) :
    p.read line = (p, none) := by
  have hnone : ∀ key ∈ keys, valueOf? key line = none := fun key hkey =>
    valueOf?_of_not_progress hkey h
  simp only [keys, List.forall_mem_cons] at hnone
  have hfst : (p.read line).1 = p := by
    rw [read_fst]
    simp [frameOf?, fpsOf?, outTimeMsOf?, speedOf?, saysEnd, hnone]
  have hsnd : (p.read line).2 = none := by
    rw [read_snd, asksReport_of_not_progress h]
    rfl
  exact Prod.ext hfst hsnd

end Progress

/-! ## All lines -/

namespace Messages

open Progress

/-- The lines that report no progress. -/
def others (lines : List String) : List String := lines.filter fun line => !isProgressLine line

/-- A report for every line that asks for one, of what is known after it. -/
def reportsOf (lines : List String) : List Progress :=
  (lines.inits.filter fun seen => seen.getLast?.any asksReport).map after

/-- What explains a failure: the last of the other lines, unless that is no text at all. -/
def explanation (lines : List String) : Option String :=
  (some ("\n".intercalate ((others lines).rtake tailLines))).filter fun text => text ≠ ""

theorem reportsOf_concat (lines : List String) (line : String) :
    reportsOf (lines ++ [line]) =
      reportsOf lines ++ if asksReport line then [after (lines ++ [line])] else [] := by
  have hinits : (lines ++ [line]).inits = lines.inits ++ [lines ++ [line]] := by
    simp [List.inits_append]
  rw [reportsOf, hinits, List.filter_append, List.map_append]
  by_cases hline : asksReport line <;> simp [reportsOf, hline]

theorem length_reportsOf (lines : List String) :
    (reportsOf lines).length = lines.countP asksReport := by
  induction lines using List.reverseRecOn with
  | nil => rfl
  | append_singleton lines line ih =>
      rw [reportsOf_concat, List.length_append, List.countP_append, ih]
      cases hline : asksReport line <;> simp [hline]

theorem others_concat (lines : List String) (line : String) :
    others (lines ++ [line]) = others lines ++ if isProgressLine line then [] else [line] := by
  by_cases hline : isProgressLine line <;> simp [others, hline]

/-- Of the lines that are kept, all but the first are kept on if there are as many as may be. -/
theorem rtake_eq_drop_rtake {α : Type} (n : ℕ) (xs : List α) :
    xs.rtake n = if (xs.rtake (n + 1)).length = n + 1 then (xs.rtake (n + 1)).drop 1
      else xs.rtake (n + 1) := by
  simp only [List.rtake, List.length_drop, List.drop_drop]
  split <;> congr 1 <;> omega

theorem ofLines_concat (lines : List String) (line : String) :
    ofLines (lines ++ [line]) = (ofLines lines).add line := List.foldl_concat ..

theorem add_of_progress (m : Messages) {line : String} (h : isProgressLine line = true) :
    m.add line =
      ⟨(m.current.read line).1, m.reports ++ (m.current.read line).2.toList, m.tail⟩ := if_pos h

theorem add_of_not_progress (m : Messages) {line : String} (h : isProgressLine line = false) :
    m.add line = ⟨m.current, m.reports,
      (if m.tail.length = tailLines then m.tail.drop 1 else m.tail) ++ [line]⟩ :=
  if_neg (Bool.eq_false_iff.mp h)

/-- What was gathered is what the lines say; the induction adds one line at the end. -/
theorem ofLines_eq (lines : List String) :
    ofLines lines = ⟨after lines, reportsOf lines, (others lines).rtake tailLines⟩ := by
  induction lines using List.reverseRecOn with
  | nil => rfl
  | append_singleton lines line ih =>
      rw [ofLines_concat, ih, others_concat, reportsOf_concat, after_concat]
      cases hline : isProgressLine line with
      | true =>
          rw [add_of_progress _ hline, read_snd]
          cases asksReport line <;> simp
      | false =>
          rw [add_of_not_progress _ hline, read_of_not_progress _ hline,
            asksReport_of_not_progress hline]
          -- with the new line, one line less of those before it is kept
          simp [rtake_eq_drop_rtake 19, tailLines]

/-- A value that cannot be read leaves the one before it. -/
example : (ofLines ["frame=3", "boom", "frame=oops", "progress=end"]).current.frame = 3 ∧
    explanation ["frame=3", "boom", "frame=oops", "progress=end"] = some "boom" := ⟨rfl, rfl⟩

theorem tailText_ofLines (lines : List String) : (ofLines lines).tailText = explanation lines := by
  rw [tailText, ofLines_eq, explanation]
  by_cases h : "\n".intercalate ((others lines).rtake tailLines) = "" <;> simp [Option.filter, h]

/-- No line is both reported and kept. The error of a failed render explains itself with the last
lines that report no progress, in order; there is one report for each line that asks for one, in
order, with what all lines up to it say last about every field; and a line that changes what is
known or is reported on is not among those that are kept. -/
theorem messages_accounted (lines : List String) :
    (∀ code : Option ℤ, (RunEnd.exited code).result (ofLines lines) =
      if code = some 0 then .ok ()
      else .error (.renderFailed "FFmpeg exited with non-zero status" (explanation lines) code)) ∧
    (ofLines lines).reports = reportsOf lines ∧
    (reportsOf lines).length = lines.countP asksReport ∧
    ∀ (p : Progress) (line : String),
      (p.read line).1 ≠ p ∨ (p.read line).2 ≠ none → isProgressLine line = true := by
  refine ⟨fun code => ?_, ?_, length_reportsOf lines, fun p line h => ?_⟩
  · rw [RunEnd.result, tailText_ofLines]
  · rw [ofLines_eq]
  · by_contra hline
    rw [read_of_not_progress p (Bool.eq_false_iff.mpr hline)] at h
    simp at h

end Messages

end Slideshow
