import Mathlib.Data.List.Basic

/-! Base64: three bytes as four characters, and an end of one or two bytes that is filled up
with equals signs. -/

namespace Base64

def alphabet : List Char := "ABCDEFGHIJKLMNOPQRSTUVWXYZabcdefghijklmnopqrstuvwxyz0123456789+/".toList

def charOf (n : Nat) : Char := alphabet.getD n '='

def valueOf (c : Char) : Option Nat := alphabet.findIdx? (· == c)

def encode : List UInt8 → List Char
  | [] => []
  | [a] => [charOf (a.toNat / 4), charOf (a.toNat % 4 * 16), '=', '=']
  | [a, b] => [charOf (a.toNat / 4), charOf (a.toNat % 4 * 16 + b.toNat / 16), charOf (b.toNat % 16 * 4), '=']
  | a :: b :: c :: rest =>
    charOf (a.toNat / 4) :: charOf (a.toNat % 4 * 16 + b.toNat / 16) ::
      charOf (b.toNat % 16 * 4 + c.toNat / 64) :: charOf (c.toNat % 64) :: encode rest

/-- The bytes of a text that is made of groups of four characters. -/
def decode : List Char → Option (List UInt8)
  | [] => some []
  | p :: q :: r :: s :: rest =>
    match valueOf p, valueOf q, valueOf r, valueOf s with
    | some i, some j, some k, some l =>
      (decode rest).map fun data => UInt8.ofNat (i * 4 + j / 16) :: UInt8.ofNat (j % 16 * 16 + k / 4) ::
        UInt8.ofNat (k % 4 * 64 + l) :: data
    | some i, some j, some k, none =>
      if s = '=' ∧ rest = [] then some [UInt8.ofNat (i * 4 + j / 16), UInt8.ofNat (j % 16 * 16 + k / 4)]
      else none
    | some i, some j, none, none =>
      if r = '=' ∧ s = '=' ∧ rest = [] then some [UInt8.ofNat (i * 4 + j / 16)] else none
    | _, _, _, _ => none
  | _ => none

theorem valueOf_charOf {n : Nat} (h : n < 64) : valueOf (charOf n) = some n := by
  have hall : ∀ n < 64, valueOf (charOf n) = some n := by decide
  exact hall n h

theorem valueOf_fill : valueOf '=' = none := by decide

theorem ofNat_eq {b : UInt8} {n : Nat} (h : n = b.toNat) : UInt8.ofNat n = b := by
  rw [h, UInt8.ofNat_toNat]

theorem decode_encode (data : List UInt8) : decode (encode data) = some data := by
  fun_induction encode data with
  | case1 => rfl
  | case2 a =>
    have ha := a.toNat_lt
    simp only [decode, valueOf_charOf (by omega : a.toNat / 4 < 64),
      valueOf_charOf (by omega : a.toNat % 4 * 16 < 64), valueOf_fill, and_self, ↓reduceIte]
    rw [ofNat_eq (b := a) (by omega)]
  | case3 a b =>
    have ha := a.toNat_lt
    have hb := b.toNat_lt
    simp only [decode, valueOf_charOf (by omega : a.toNat / 4 < 64),
      valueOf_charOf (by omega : a.toNat % 4 * 16 + b.toNat / 16 < 64),
      valueOf_charOf (by omega : b.toNat % 16 * 4 < 64), valueOf_fill, and_self, ↓reduceIte]
    rw [ofNat_eq (b := a) (by omega), ofNat_eq (b := b) (by omega)]
  | case4 a b c rest ih =>
    have ha := a.toNat_lt
    have hb := b.toNat_lt
    have hc := c.toNat_lt
    simp only [decode, valueOf_charOf (by omega : a.toNat / 4 < 64),
      valueOf_charOf (by omega : a.toNat % 4 * 16 + b.toNat / 16 < 64),
      valueOf_charOf (by omega : b.toNat % 16 * 4 + c.toNat / 64 < 64),
      valueOf_charOf (by omega : c.toNat % 64 < 64), ih, Option.map_some]
    rw [ofNat_eq (b := a) (by omega), ofNat_eq (b := b) (by omega), ofNat_eq (b := c) (by omega)]

end Base64
