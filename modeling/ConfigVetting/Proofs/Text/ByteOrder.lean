import ConfigVetting.Text.Cut
import Mathlib.Tactic.SplitIfs

/-! # The order of texts by their bytes

Texts are ordered character by character. A text that comes before another one comes before it byte by
byte too, when both are written in UTF-8 (`ConfigVetting.Text.bytes_lt_bytes_iff`), so that an order of
names by their bytes and one by their characters are the same.
-/

namespace ConfigVetting.Text

/-- The bytes of a text in UTF-8. -/
def bytes (text : String) : List UInt8 :=
  text.toUTF8.data.toList

private theorem bytes_eq (text : String) : bytes text = text.toList.flatMap String.utf8EncodeChar := by
  rw [bytes, String.toUTF8_eq_toByteArray, ← String.utf8Encode_toList, List.utf8Encode,
    List.toList_data_toByteArray]

private theorem code_lt (c : Char) : c.val.toNat < 1114112 := by
  rcases c.valid with low | high
  · exact Nat.lt_trans low (by decide)
  · exact high.2

/-- The bytes of an earlier character come earlier, whatever comes behind them. -/
theorem utf8EncodeChar_append_lt {c d : Char} (earlier : c < d) (first second : List UInt8) :
    String.utf8EncodeChar c ++ first < String.utf8EncodeChar d ++ second := by
  have less : c.val.toNat < d.val.toNat := earlier
  have range := code_lt d
  -- The bytes behind the first one hold the digits of the character in base 64.
  have digits : ∀ value : Nat, value / 4096 = value / 64 / 64 ∧
      value / 262144 = value / 64 / 64 / 64 := by
    omega
  unfold String.utf8EncodeChar
  generalize c.val.toNat = earlierValue, d.val.toNat = value at less range
  dsimp only
  rw [(digits earlierValue).1, (digits earlierValue).2, (digits value).1, (digits value).2]
  -- Either both have the same number of bytes, or the later one starts with a greater byte.
  split_ifs <;>
    simp only [List.cons_append, List.nil_append, List.cons_lt_cons_iff, UInt8.lt_iff_toNat_lt,
      ← UInt8.toNat_inj, UInt8.toNat_ofNat'] <;>
    omega

private theorem flatMap_utf8EncodeChar_lt {first second : List Char} (earlier : first < second) :
    first.flatMap String.utf8EncodeChar < second.flatMap String.utf8EncodeChar := by
  induction first generalizing second with
  | nil =>
      cases second with
      | nil => exact absurd earlier (List.not_lt_nil [])
      | cons d second =>
          rw [List.flatMap_nil, List.flatMap_cons]
          obtain ⟨byte, others, encoded⟩ := List.exists_cons_of_ne_nil
            (String.utf8EncodeChar_ne_nil (c := d))
          rw [encoded]
          exact List.nil_lt_cons _ _
  | cons c first ih =>
      cases second with
      | nil => exact absurd earlier (List.not_lt_nil _)
      | cons d second =>
          rw [List.flatMap_cons, List.flatMap_cons]
          rcases List.cons_lt_cons_iff.mp earlier with less | ⟨rfl, less⟩
          · exact utf8EncodeChar_append_lt less _ _
          · exact List.append_left_lt (ih less)

/-- A text comes before another one exactly if its bytes come before those of the other. -/
theorem bytes_lt_bytes_iff {first second : String} : bytes first < bytes second ↔ first < second := by
  have kept : ∀ {earlier later : String}, earlier < later → bytes earlier < bytes later := by
    intro earlier later less
    rw [bytes_eq, bytes_eq]
    exact flatMap_utf8EncodeChar_lt less
  refine ⟨fun less => Classical.byContradiction fun notBefore => ?_, kept⟩
  by_cases behind : second < first
  · exact List.lt_asymm less (kept behind)
  · have same : first = second :=
      String.le_antisymm (String.not_lt.mp behind) (String.not_lt.mp notBefore)
    rw [same] at less
    exact List.lt_irrefl _ less

end ConfigVetting.Text
