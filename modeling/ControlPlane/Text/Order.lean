/-
The order of names: ascending by their UTF-8 bytes, as a service lists them.
It is a strict total order, because a text is determined by its bytes.
-/
import ControlPlane.Text.Utf8

namespace ControlPlane.Text

/-- `a` comes before `b`. -/
def Before (a b : String) : Prop := Utf8.encode a < Utf8.encode b

instance (a b : String) : Decidable (Before a b) := by
  unfold Before; infer_instance

theorem encode_injective {a b : String} (h : Utf8.encode a = Utf8.encode b) : a = b := by
  rw [← String.toByteArray_inj]
  have e (s : String) : s.toByteArray = (Utf8.encode s).toByteArray := by
    rw [Utf8.encode, ← List.utf8Encode.eq_def, ← String.toByteArray_ofList, String.ofList_toList]
  rw [e a, e b, h]

theorem Before.irrefl (a : String) : ¬ Before a a := List.lt_irrefl _

theorem Before.trans {a b c : String} : Before a b → Before b c → Before a c := List.lt_trans

theorem Before.asymm {a b : String} : Before a b → ¬ Before b a := List.lt_asymm

/-- Two names neither of which comes first are one name. -/
theorem eq_of_not_before {a b : String} (h : ¬ Before a b) (h' : ¬ Before b a) : a = b :=
  encode_injective (List.le_antisymm h' h)

end ControlPlane.Text
