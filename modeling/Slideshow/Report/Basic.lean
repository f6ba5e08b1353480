import Slideshow.Decimal.Layout
import Slideshow.Json.Basic

/-! # Reports

A report is a document that tells what a value is to someone who reads along. Computed numbers are
told by their shortest decimals, as texts, so that none of them is lost; what succeeded without a
value is told to be in order. -/

namespace Slideshow

/-- Values that can be reported. -/
class Report (α : Type) where
  /-- The report of a value. -/
  out : α → Json

namespace Report

variable {α β : Type}

instance : Report Json := ⟨id⟩
instance : Report String := ⟨.string⟩
instance : Report Nat := ⟨fun n => .integer n⟩
instance : Report Int := ⟨.integer⟩
instance : Report Bool := ⟨.bool⟩
instance : Report Float := ⟨fun x => .string (Decimal.plain.text x)⟩
instance : Report Unit := ⟨fun _ => .string "ok"⟩

instance [Report α] : Report (List α) := ⟨fun as => .array (as.map out)⟩
instance [Report α] : Report (Option α) := ⟨Json.ofOption out⟩
instance [Report α] [Report β] : Report (α × β) := ⟨fun (a, b) => .array [out a, out b]⟩

instance [Report α] [Report β] : Report (Except α β) where
  out
    | .ok b => out b
    | .error a => out a

/-- A member of a report. -/
def item [Report α] (key : String) (a : α) : String × Json := (key, out a)

end Report

end Slideshow
