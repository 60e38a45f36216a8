import Mathlib.Data.UInt
import Mathlib.Tactic

namespace Embedjson.Foundations

variable {p : UInt8 → Prop}

lemma forall_byte_iff : (∀ n : Fin 256, p (UInt8.ofNat n)) ↔ ∀ b, p b := by
  refine ⟨fun h b => ?_, fun h n => h _⟩
  have hb := h ⟨b.toNat, b.toNat_lt⟩
  rwa [UInt8.ofNat_toNat] at hb

instance decidableForallByte [DecidablePred p] : Decidable (∀ b, p b) :=
  decidable_of_iff _ forall_byte_iff

end Embedjson.Foundations
