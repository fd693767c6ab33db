import Mathlib.Data.List.Infix
import Mathlib.Data.List.Basic

/-! Glob patterns over bytes: stars, wild cards, classes and escapes. -/

namespace Glob

inductive Token where
  | star
  | any
  | oneOf (negated : Bool) (ranges : List (UInt8 × UInt8))
  | byte (b : UInt8)
  deriving DecidableEq

/-- The bytes `*`, `?`, `[` and the backslash. -/
def special : List UInt8 := [42, 63, 91, 92]

def parse : Option (Bool × List (UInt8 × UInt8)) → List UInt8 → List Token
  | none, [] => []
  | none, 42 :: rest => .star :: parse none rest
  | none, 63 :: rest => .any :: parse none rest
  | none, 91 :: 94 :: rest => parse (some (true, [])) rest
  | none, 91 :: rest => parse (some (false, [])) rest
  | none, 92 :: c :: rest => .byte c :: parse none rest
  | none, c :: rest => .byte c :: parse none rest
  | some (negated, ranges), [] => [.oneOf negated ranges]
  | some (negated, ranges), 92 :: c :: rest => parse (some (negated, (c, c) :: ranges)) rest
  | some (negated, ranges), 93 :: rest => .oneOf negated ranges :: parse none rest
  | some (negated, ranges), a :: 45 :: b :: rest =>
    parse (some (negated, (min a b, max a b) :: ranges)) rest
  | some (negated, ranges), a :: rest => parse (some (negated, (a, a) :: ranges)) rest

def run : List Token → List UInt8 → Bool
  | [], text => text.isEmpty
  | .star :: tokens, text => text.tails.any fun rest => run tokens rest
  | .any :: tokens, text => match text with
    | [] => false
    | _ :: rest => run tokens rest
  | .oneOf negated ranges :: tokens, text => match text with
    | [] => false
    | c :: rest => (ranges.any fun r => r.1 ≤ c && c ≤ r.2) != negated && run tokens rest
  | .byte b :: tokens, text => match text with
    | [] => false
    | c :: rest => b == c && run tokens rest

def matchesText (pattern text : List UInt8) : Bool := run (parse none pattern) text

section Plain

variable {w text rest : List UInt8} {tokens : List Token}

def Plain (w : List UInt8) : Prop := ∀ b ∈ w, b ∉ special

theorem parse_plain (h : Plain w) : parse none (w ++ rest) = w.map .byte ++ parse none rest := by
  induction w with
  | nil => rfl
  | cons b w ih =>
    have hb : b ∉ special := h b List.mem_cons_self
    have hw := ih fun c hc => h c (List.mem_cons_of_mem _ hc)
    simp only [special, List.mem_cons, List.not_mem_nil, or_false, not_or] at hb
    simp only [List.cons_append, List.map_cons]
    rw [parse]
    · rw [hw]
    all_goals simp_all

theorem run_star : run (.star :: tokens) text = true ↔
    ∃ skipped rest, text = skipped ++ rest ∧ run tokens rest = true := by
  simp only [run, List.any_eq_true, List.mem_tails]
  constructor
  · rintro ⟨rest, ⟨skipped, rfl⟩, h⟩
    exact ⟨skipped, rest, rfl, h⟩
  · rintro ⟨skipped, rest, rfl, h⟩
    exact ⟨rest, ⟨skipped, rfl⟩, h⟩

theorem run_bytes : run (w.map .byte ++ tokens) text = true ↔
    ∃ rest, text = w ++ rest ∧ run tokens rest = true := by
  induction w generalizing text with
  | nil => simp
  | cons b w ih =>
    cases text with
    | nil => simp [run]
    | cons c text =>
      simp only [List.map_cons, List.cons_append, run, Bool.and_eq_true, beq_iff_eq, ih,
        List.cons.injEq]
      constructor
      · rintro ⟨rfl, rest, rfl, h⟩
        exact ⟨rest, ⟨rfl, rfl⟩, h⟩
      · rintro ⟨rest, ⟨rfl, rfl⟩, h⟩
        exact ⟨rfl, rest, rfl, h⟩

theorem run_star_nil : run [.star] text = true :=
  run_star.mpr ⟨text, [], (List.append_nil text).symm, rfl⟩

theorem matchesText_infix {start w : List UInt8} (hstart : Plain start) (hw : Plain w)
    {text : List UInt8} : matchesText (start ++ 42 :: w ++ [42]) (start ++ text) = true ↔
      w <:+: text := by
  have hparse : parse none (start ++ 42 :: w ++ [42]) =
      start.map .byte ++ .star :: (w.map .byte ++ [.star]) := by
    rw [List.append_assoc, parse_plain hstart, List.cons_append, parse, parse_plain hw]
    rfl
  rw [matchesText, hparse, run_bytes]
  constructor
  · rintro ⟨rest, happend, h⟩
    obtain rfl := List.append_cancel_left happend
    obtain ⟨skipped, rest, rfl, hrest⟩ := run_star.mp h
    obtain ⟨last, rfl, _⟩ := run_bytes.mp hrest
    exact ⟨skipped, last, by rw [List.append_assoc]⟩
  · rintro ⟨skipped, last, rfl⟩
    refine ⟨_, rfl, run_star.mpr ⟨skipped, w ++ last, by rw [List.append_assoc], ?_⟩⟩
    exact run_bytes.mpr ⟨last, rfl, run_star_nil⟩

end Plain

end Glob
