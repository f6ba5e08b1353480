import Slideshow.Proofs.Filter.Flow
import Slideshow.Filter.Compile

/-! # What streams show

A stream shows what its operation makes of what the streams that it takes show, down to the inputs.
Copies show what was copied. An operation is told by its name, the text before the first equals
sign. -/

namespace Slideshow

/-- What a stream shows, as far as it can be read off the operations. -/
inductive Picture where
  | input (l : Label)
  | made (expression : String) (of : List Picture)

/-- Pictures one after another. -/
def Picture.joined (ps : List Picture) : Picture :=
  .made ("concat=n=" ++ Decimal.natText ps.length ++ ":v=1:a=0") ps

namespace Operation

/-- The filter that an operation runs first. -/
def name (op : Operation) : List Char := op.expression.toList.takeWhile fun c => c != '='

/-- What the streams that an operation gives show. -/
def picture (op : Operation) : List Picture → Picture
  | [p] => if op.name = "split".toList then p else .made op.expression [p]
  | ps => .made op.expression ps

/-- The operation says how many streams it takes and gives, where there can be several. -/
structure Shaped (op : Operation) : Prop where
  concat : op.name = "concat".toList →
    ∃ k, op.expression = "concat=n=" ++ Decimal.natText k ++ ":v=1:a=0" ∧ op.inputs.length = k ∧
      op.outputs.length = 1
  split : op.name = "split".toList →
    ∃ k, op.expression = "split=" ++ Decimal.natText k ∧ op.inputs.length = 1 ∧
      op.outputs.length = k
  overlay : op.name = "overlay".toList → op.inputs.length = 2 ∧ op.outputs.length = 1

variable {op : Operation}

theorem name_eq {word : String}
    (h : ∃ rest, op.expression.toList = word.toList ++ '=' :: rest) (hword : '=' ∉ word.toList) :
    op.name = word.toList := by
  obtain ⟨rest, h⟩ := h
  rw [name, h, List.takeWhile_append_of_pos]
  · simp
  · rintro c hc
    simp only [bne_iff_ne, ne_eq]
    rintro rfl
    exact hword hc

theorem picture_of_name (h : op.name ≠ "split".toList) (ps : List Picture) :
    op.picture ps = .made op.expression ps := by
  rcases ps with _ | ⟨p, _ | ⟨q, ps⟩⟩
  · rfl
  · exact if_neg h
  · rfl

theorem picture_of_split (h : op.name = "split".toList) (p : Picture) : op.picture [p] = p :=
  if_pos h

end Operation

namespace Graph

/-- What a stream shows after some operations, which come last first. -/
def pictureOf : List Operation → Label → Picture
  | [], l => .input l
  | op :: rest, l =>
    if l ∈ op.outputs then op.picture (op.inputs.map (pictureOf rest)) else pictureOf rest l

/-- What a stream shows. -/
def picture (g : Graph) : Label → Picture := pictureOf g.ops.reverse

/-- The last operation joins streams that show these pictures. -/
def EndsJoined (g : Graph) (video : Label) (ps : List Picture) : Prop :=
  ∃ streams, g.ops.getLast? =
    some ⟨streams, "concat=n=" ++ Decimal.natText ps.length ++ ":v=1:a=0", [video]⟩ ∧
    streams.map g.picture = ps

variable {g : Graph} {op : Operation} {l : Label}

@[simp]
theorem picture_nil (stages : ℕ) (produced consumed : List Label) :
    picture ⟨[], produced, consumed, stages⟩ l = .input l := rfl

theorem picture_of_mem_outputs {g' : Graph} (h : g'.ops = g.ops ++ [op]) (hl : l ∈ op.outputs) :
    g'.picture l = op.picture (op.inputs.map g.picture) := by
  simp [picture, h, pictureOf, hl]

theorem picture_of_not_mem_outputs {g' : Graph} (h : g'.ops = g.ops ++ [op])
    (hl : l ∉ op.outputs) : g'.picture l = g.picture l := by
  simp [picture, h, pictureOf, hl]

end Graph

end Slideshow
