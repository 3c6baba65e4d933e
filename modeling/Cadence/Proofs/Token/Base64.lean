import Cadence.Proofs.Text.Chars
import Cadence.Token.Basic
import Mathlib.Tactic.SplitIfs

/-!
# Bytes and texts in base 64
-/

namespace Cadence.Base64

/-! ## Bytes -/

theorem decode?_encode (bytes : List UInt8) : decode? (encode bytes) = some bytes := by
  fun_induction encode bytes with
  | case1 => rfl
  | case2 a =>
    have ha := a.toNat_lt
    rw [decode?, value?_char _ (by omega), value?_char _ (by omega)]
    simp only [Option.bind_eq_bind, Option.bind_some, Nat.mul_mod_left, if_true]
    rw [show a.toNat / 4 * 4 + a.toNat % 4 * 16 / 16 = a.toNat by omega, UInt8.ofNat_toNat]
  | case3 a b =>
    have ha := a.toNat_lt
    have hb := b.toNat_lt
    rw [decode?, value?_char _ (by omega), value?_char _ (by omega), value?_char _ (by omega)]
    simp only [Option.bind_eq_bind, Option.bind_some, Nat.mul_mod_left, if_true]
    rw [show a.toNat / 4 * 4 + (a.toNat % 4 * 16 + b.toNat / 16) / 16 = a.toNat by omega,
      show (a.toNat % 4 * 16 + b.toNat / 16) % 16 * 16 + b.toNat % 16 * 4 / 4 = b.toNat by omega,
      UInt8.ofNat_toNat, UInt8.ofNat_toNat]
  | case4 a b c rest ih =>
    have ha := a.toNat_lt
    have hb := b.toNat_lt
    have hc := c.toNat_lt
    rw [decode?, value?_char _ (by omega), value?_char _ (by omega), value?_char _ (by omega),
      value?_char _ (by omega), ih]
    simp only [Option.bind_eq_bind, Option.bind_some, Option.pure_def]
    rw [show a.toNat / 4 * 4 + (a.toNat % 4 * 16 + b.toNat / 16) / 16 = a.toNat by omega,
      show (a.toNat % 4 * 16 + b.toNat / 16) % 16 * 16 + (b.toNat % 16 * 4 + c.toNat / 64) / 4 =
        b.toNat by omega,
      show (b.toNat % 16 * 4 + c.toNat / 64) % 4 * 64 + c.toNat % 64 = c.toNat by omega,
      UInt8.ofNat_toNat, UInt8.ofNat_toNat, UInt8.ofNat_toNat]

theorem length_encode (bytes : List UInt8) : (encode bytes).length = (bytes.length * 4 + 2) / 3 := by
  fun_induction encode bytes with
  | case1 | case2 | case3 => simp
  | case4 a b c rest ih =>
    simp only [List.length_cons, ih]
    omega

theorem mem_encode {bytes : List UInt8} {c : Char} (h : c ∈ encode bytes) : ∃ n < 64, c = char n := by
  fun_induction encode bytes with
  | case1 => cases h
  | case2 a =>
    have ha := a.toNat_lt
    simp only [List.mem_cons, List.not_mem_nil, or_false] at h
    rcases h with rfl | rfl <;> exact ⟨_, by omega, rfl⟩
  | case3 a b =>
    have ha := a.toNat_lt
    have hb := b.toNat_lt
    simp only [List.mem_cons, List.not_mem_nil, or_false] at h
    rcases h with rfl | rfl | rfl <;> exact ⟨_, by omega, rfl⟩
  | case4 a b c' rest ih =>
    have ha := a.toNat_lt
    have hb := b.toNat_lt
    have hc := c'.toNat_lt
    simp only [List.mem_cons] at h
    rcases h with rfl | rfl | rfl | rfl | h
    · exact ⟨_, by omega, rfl⟩
    · exact ⟨_, by omega, rfl⟩
    · exact ⟨_, by omega, rfl⟩
    · exact ⟨_, by omega, rfl⟩
    · exact ih h

theorem char_of_value? {c : Char} {n : Nat} (h : value? c = some n) : n < 64 ∧ c = char n := by
  have hcode {d e : Char} (h : d ≤ c ∧ c ≤ e) : d.toNat ≤ c.toNat ∧ c.toNat ≤ e.toNat := h
  have hof {k : Nat} (hk : k = c.toNat) : c = Char.ofNat k := by rw [hk, Char.ofNat_toNat]
  unfold value? at h
  unfold char
  split_ifs at h with hupper hlower hdigit hdash hline
  · obtain ⟨hlow, hhigh⟩ := hcode hupper
    have hends : 'A'.toNat = 65 ∧ 'Z'.toNat = 90 := by decide
    cases h
    rw [if_pos (by omega)]
    exact ⟨by omega, hof (by omega)⟩
  · obtain ⟨hlow, hhigh⟩ := hcode hlower
    have hends : 'a'.toNat = 97 ∧ 'z'.toNat = 122 := by decide
    cases h
    rw [if_neg (by omega), if_pos (by omega)]
    exact ⟨by omega, hof (by omega)⟩
  · obtain ⟨hlow, hhigh⟩ := hcode hdigit
    have hends : '0'.toNat = 48 ∧ '9'.toNat = 57 := by decide
    cases h
    rw [if_neg (by omega), if_neg (by omega), if_pos (by omega)]
    exact ⟨by omega, hof (by omega)⟩
  · cases h
    exact ⟨by decide, hdash⟩
  · cases h
    exact ⟨by decide, hline⟩

theorem mem_of_decode? {cs : List Char} {bytes : List UInt8} (h : decode? cs = some bytes) {c : Char}
    (hc : c ∈ cs) : ∃ n < 64, c = char n := by
  have hvalue {d : Char} {n : Nat} (hd : value? d = some n) : ∃ n < 64, d = char n :=
    ⟨n, char_of_value? hd⟩
  fun_induction decode? cs generalizing bytes with
  | case1 => cases hc
  | case2 => cases h
  | case3 w x =>
    simp only [Option.bind_eq_bind, Option.bind_eq_some_iff] at h
    obtain ⟨_, hw, _, hx, -⟩ := h
    simp only [List.mem_cons, List.not_mem_nil, or_false] at hc
    rcases hc with rfl | rfl
    · exact hvalue hw
    · exact hvalue hx
  | case4 w x y =>
    simp only [Option.bind_eq_bind, Option.bind_eq_some_iff] at h
    obtain ⟨_, hw, _, hx, _, hy, -⟩ := h
    simp only [List.mem_cons, List.not_mem_nil, or_false] at hc
    rcases hc with rfl | rfl | rfl
    · exact hvalue hw
    · exact hvalue hx
    · exact hvalue hy
  | case5 w x y z rest ih =>
    simp only [Option.bind_eq_bind, Option.bind_eq_some_iff] at h
    obtain ⟨_, hw, _, hx, _, hy, _, hz, _, hrest, -⟩ := h
    simp only [List.mem_cons] at hc
    rcases hc with rfl | rfl | rfl | rfl | hc
    · exact hvalue hw
    · exact hvalue hx
    · exact hvalue hy
    · exact hvalue hz
    · exact ih hrest hc

theorem dot_not_mem_encode (bytes : List UInt8) : '.' ∉ encode bytes := by
  have hchars : ∀ n < 64, '.' ≠ char n := by decide
  intro h
  obtain ⟨n, hn, heq⟩ := mem_encode h
  exact hchars n hn heq

end Cadence.Base64

namespace Cadence.Token

/-! ## Texts -/

theorem textOf?_toUTF8 (s : String) : textOf? s.toUTF8.toList = some s := by
  unfold textOf?
  rw [Text.toList_eq, Array.toArray_toList, String.fromUTF8?, String.toUTF8_eq_toByteArray,
    dif_pos s.isValidUTF8]
  rfl

end Cadence.Token
