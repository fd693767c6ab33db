import Doci.MoneyFormats

/-! `check_vat`. -/

namespace Doci

open Numerals Binary64

structure VatCheck (α : Type) where
  expected : α
  vat : α
  diff : α
  allowed : α
  isMatch : Bool
  rate : α
  rateValid : Bool
  deriving DecidableEq

/-- A character that `[^0-9.]` does not match. -/
def isRateChar (c : Char) : Bool := (digit? c).isSome || c == '.'

/-- The names of the arguments that cannot be read, as Python prints the list. -/
def unreadable {α : Type} (sub got rate : Option α) : List String :=
  [("subtotal", sub), ("vat", got), ("rate", rate)].filterMap fun p => match p.2 with
    | none => some ("'" ++ p.1 ++ "'")
    | some _ => none

def vatError {α : Type} (repr : ToolValue α → String) (bad : List String) (subtotal : ToolValue α)
    (rate : String) (vat : ToolValue α) : String :=
  "could not parse [" ++ ", ".intercalate bad ++ "] from subtotal=" ++ repr subtotal ++ ", rate=" ++
    repr (.text rate) ++ ", vat=" ++ repr vat ++ "."

section Floats

variable {α : Type} [FloatOps α]

def rateOf (rate : String) : Option α := (floatOf (rate.toList.filter isRateChar)).map FloatOps.ofRat

def defaultRates : List α := [FloatOps.ofRat 0, FloatOps.ofRat 5, FloatOps.ofRat 8, FloatOps.ofRat 10]

/-- `max(expected, 1.0) * tol_pct / 100.0`, where `max` keeps the first one of what does not compare. -/
def allowance (expected tolPct : α) : α :=
  let one : α := FloatOps.ofRat 1
  FloatOps.divNat (FloatOps.mul (if FloatOps.lt expected one then one else expected) tolPct) 100

def vatCheck [DecidableEq α] (sub rate got tolPct : α) (rates : List α) : VatCheck α :=
  let expected := FloatOps.divNat (FloatOps.mul sub rate) 100
  let diff := FloatOps.abs (FloatOps.sub got expected)
  let allowed := allowance expected tolPct
  ⟨expected, got, diff, allowed, FloatOps.le diff allowed, rate, rate ∈ rates⟩

/-- An `OverflowError`, or the reply. -/
def checkVat [DecidableEq α] (repr : ToolValue α → String) (subtotal : ToolValue α) (rate : String)
    (vat : ToolValue α) (tolPct : α) (allowedRates : Option (List α)) :
    Except String (Except String (VatCheck α)) := do
  let sub ← toMoney subtotal
  let got ← toMoney vat
  match sub, rateOf rate, got with
  | some sub, some rateVal, some got =>
    return .ok (vatCheck sub rateVal got tolPct (allowedRates.getD defaultRates))
  | sub, rateVal, got => return .error (vatError repr (unreadable sub got rateVal) subtotal rate vat)

/-- The two replies judge alike, and allow a part of the magnitude; `nan` is like itself. -/
def JudgedAlike (tolPct : α) :
    Except String (Except String (VatCheck α)) → Except String (Except String (VatCheck α)) → Prop
  | .ok (.ok a), .ok (.ok b) => a.isMatch = b.isMatch ∧ a.diff = b.diff ∧ a.allowed = b.allowed ∧
      a.allowed = allowance (FloatOps.abs a.expected) tolPct
  | .ok (.error _), .ok (.error _) => True
  | .error _, .error _ => True
  | _, _ => False

end Floats

/-- Of texts, as the tools pass them, and ints. -/
def plainRepr {α : Type} : ToolValue α → String
  | .none => "None"
  | .int n => toString n
  | .float _ => "float"
  | .text s => "'" ++ s ++ "'"

section CreditNotes

variable {p : ℚ} {s r t : Double}

theorem ofRat_one : (FloatOps.ofRat 1 : Double) = .finite 1 isDouble_one :=
  Double.round_of_isDouble isDouble_one

/-- The allowance of a magnitude that the product and the rate have made larger than 1 is rounded to
that of 1. -/
def Swallowed (p : ℚ) (t : Double) : Prop :=
  ((Double.round (|p| / 100)).mul t).divNat 100 = t.divNat 100

/-- The floor of 1 decides for the invoice and the credit note, or the result does not show which. -/
def FloorDecides (s r t : Double) : Prop :=
  s.mul r = .nan ∨ t.value? = none ∨
    ∃ p, (s.mul r).value? = some p ∧ (t.value? = some 0 ∨ |p| ≤ 100 ∨ Swallowed p t)

theorem allowance_eq (e t : Double) : allowance e t =
    ((if e.lt (.finite 1 isDouble_one) then .finite 1 isDouble_one else e).mul t).divNat 100 := by
  rw [← ofRat_one]
  rfl

theorem allowance_one (t : Double) : allowance (.finite 1 isDouble_one) t = t.divNat 100 := by
  rw [allowance_eq, ite_self, Double.finite_one_mul]

theorem allowance_small {q : ℚ} {h : IsDouble q} (hle : q ≤ 1) (t : Double) :
    allowance (.finite q h) t = t.divNat 100 := by
  rcases hle.eq_or_lt with rfl | hlt
  · exact allowance_one t
  · rw [allowance_eq, if_pos (by simpa [Double.lt] using hlt), Double.finite_one_mul]

theorem allowance_large {q : ℚ} {h : IsDouble q} (hle : 1 ≤ q) (t : Double) :
    allowance (.finite q h) t = ((Double.finite q h).mul t).divNat 100 := by
  rw [allowance_eq, if_neg (by simpa [Double.lt] using hle)]

theorem allowance_alike_iff (e t : Double) :
    allowance e t = allowance e.neg t ∧ allowance e t = allowance e.abs t ↔
      e = .nan ∨ allowance e.abs t = t.divNat 100 := by
  cases e with
  | nan => simp [Double.neg, Double.abs]
  | inf negative =>
    have hminus : allowance (.inf true) t = t.divNat 100 := by
      rw [allowance_eq]
      exact congrArg (Double.divNat · 100) (Double.finite_one_mul t)
    cases negative with
    | false => simp [Double.neg, Double.abs, hminus]
    | true => simp [Double.neg, Double.abs, hminus, eq_comm]
  | finite q h =>
    simp only [Double.neg, Double.abs, reduceCtorEq, false_or]
    rcases le_total 0 q with hpos | hneg
    · have hfloor : allowance (.finite (-q) h.neg) t = t.divNat 100 := allowance_small (by linarith) t
      simp only [abs_of_nonneg hpos, hfloor, and_true]
    · have hfloor : allowance (.finite q h) t = t.divNat 100 := allowance_small (by linarith) t
      simp only [abs_of_nonpos hneg, hfloor, and_self, eq_comm]

theorem round_div_hundred {q : ℚ} (h : IsDouble q) :
    ∃ h', Double.round (|q| / 100) = .finite (nearest (|q| / 100)) h' := by
  have hle : |(|q| / 100)| ≤ |q| := by
    rw [abs_div, abs_abs]
    norm_num
    linarith [abs_nonneg q]
  exact ⟨_, Double.round_finite (Double.nearest_lt_of_abs_le h hle)⟩

theorem divNat_finite (t : ℚ) (ht : IsDouble t) :
    ∃ q h, (Double.finite t ht).divNat 100 = .finite q h := by
  have hle : |t / (100 : ℕ)| ≤ |t| := by
    rw [abs_div]
    norm_num
    linarith [abs_nonneg t]
  exact ⟨_, _, Double.round_finite (Double.nearest_lt_of_abs_le ht hle)⟩

theorem one_le_nearest (h : 100 ≤ |p|) : 1 ≤ nearest (|p| / 100) := by
  rw [← isDouble_one.1]
  exact nearest_mono (by linarith)

theorem allowance_finite_iff (hp : IsDouble p) (t : Double) :
    allowance ((Double.finite p hp).divNat 100).abs t = t.divNat 100 ↔ |p| ≤ 100 ∨ Swallowed p t := by
  obtain ⟨h, hround⟩ := round_div_hundred hp
  have hexpected : ((Double.finite p hp).divNat 100).abs = Double.round (|p| / 100) := by
    rw [Double.divNat, Double.abs_round, abs_div]
    norm_num
  rw [hexpected, Swallowed, hround]
  rcases le_total |p| 100 with hsmall | hlarge
  · have hone : nearest (|p| / 100) ≤ 1 := by
      rw [← isDouble_one.1]
      exact nearest_mono (by linarith)
    simp only [hsmall, true_or, iff_true]
    exact allowance_small hone t
  · have hone : 1 ≤ nearest (|p| / 100) := by
      rw [← isDouble_one.1]
      exact nearest_mono (by linarith)
    rw [allowance_large hone]
    constructor
    · exact .inr
    · rintro (hsmall | hsame)
      · have hhundred : |p| / 100 = 1 := by linarith
        simp only [hhundred, isDouble_one.1, Double.finite_one_mul]
      · exact hsame

theorem swallowed_of_large (hp : IsDouble p) (h : 100 ≤ |p|)
    (ht : t.value? = none ∨ t.value? = some 0) : Swallowed p t := by
  obtain ⟨_, hround⟩ := round_div_hundred hp
  have hone := one_le_nearest h
  have hzero : nearest (|p| / 100) ≠ 0 := by linarith
  have hsign : ¬ nearest (|p| / 100) < 0 := by linarith
  rw [Swallowed, hround]
  cases t with
  | nan => rfl
  | inf negative => simp [Double.mul, hzero, hsign]
  | finite q hq =>
    obtain rfl : q = 0 := by simpa [Double.value?] using ht
    simp only [Double.mul, mul_zero, Double.round_of_isDouble hq]

theorem allowance_infinite_iff (negative : Bool) (t : Double) :
    allowance (Double.inf negative).abs t = t.divNat 100 ↔ t.value? = none := by
  have hlarge : allowance (Double.inf negative).abs t = ((Double.inf false).mul t).divNat 100 := by
    rw [allowance_eq]
    rfl
  rw [hlarge]
  cases t with
  | nan => simp [Double.mul, Double.divNat, Double.value?]
  | inf negative => simp [Double.mul, Double.divNat, Double.value?]
  | finite t ht =>
    obtain ⟨q, h, hquot⟩ := divNat_finite t ht
    rw [hquot]
    by_cases hzero : t = 0
    · simp [Double.mul, Double.divNat, Double.value?, hzero]
    · simp [Double.mul, Double.divNat, Double.value?, hzero]

theorem allowance_floor_iff (s r t : Double) :
    (s.mul r).divNat 100 = .nan ∨ allowance ((s.mul r).divNat 100).abs t = t.divNat 100 ↔
      FloorDecides s r t := by
  unfold FloorDecides
  cases s.mul r with
  | nan => simp [Double.divNat]
  | inf negative =>
    have hnot : (Double.inf negative).divNat 100 = .inf negative := rfl
    rw [hnot, allowance_infinite_iff]
    simp [Double.value?]
  | finite p hp =>
    obtain ⟨q, h, hquot⟩ := divNat_finite p hp
    have hnot : (Double.finite p hp).divNat 100 ≠ .nan := by simp [hquot]
    simp only [hnot, allowance_finite_iff, reduceCtorEq, false_or, Double.value?, Option.some.injEq,
      exists_eq_left']
    constructor
    · exact fun h => .inr (.inr h)
    · rintro (hfree | hzero | hfloor)
      · exact (le_total |p| 100).imp id fun h => swallowed_of_large hp h (.inl hfree)
      · exact (le_total |p| 100).imp id fun h => swallowed_of_large hp h (.inr hzero)
      · exact hfloor

theorem judgedAlike_iff (s r v t : Double) (rates : List Double) :
    JudgedAlike t (.ok (.ok (vatCheck s r v t rates))) (.ok (.ok (vatCheck s.neg r v.neg t rates))) ↔
      FloorDecides s r t := by
  have hexpected : (s.neg.mul r).divNat 100 = ((s.mul r).divNat 100).neg := by
    rw [Double.mul_neg_left, Double.divNat_neg]
  have hdiff : (v.neg.sub ((s.mul r).divNat 100).neg).abs = (v.sub ((s.mul r).divNat 100)).abs := by
    rw [Double.sub_neg_neg, Double.abs_neg]
  have hops : ∀ a b c : Double, vatCheck a b c t rates = ⟨(a.mul b).divNat 100, c,
      (c.sub ((a.mul b).divNat 100)).abs, allowance ((a.mul b).divNat 100) t,
      (c.sub ((a.mul b).divNat 100)).abs.le (allowance ((a.mul b).divNat 100) t), b, b ∈ rates⟩ :=
    fun _ _ _ => rfl
  rw [← allowance_floor_iff, ← allowance_alike_iff, hops, hops, hexpected, hdiff]
  constructor
  · rintro ⟨_, _, hsame, hpart⟩
    exact ⟨hsame, hpart⟩
  · rintro ⟨hsame, hpart⟩
    exact ⟨by rw [hsame], rfl, hsame, hpart⟩

theorem lt_of_cube_le {m u : ℚ} (hpos : 0 < u) (hlt : u < 1 / 8) (h : m * (1 - u) ^ 3 ≤ 1 + u) :
    m < 1 + 8 * u := by
  by_contra hge
  have hfactor : 0 ≤ (1 - u) ^ 3 := pow_nonneg (by linarith) 3
  have hstep := mul_le_mul_of_nonneg_right (not_lt.mp hge) hfactor
  have hexpand : (1 + 8 * u) * (1 - u) ^ 3 = 1 + u + u * (4 - 21 * u) + u ^ 3 * (23 - 8 * u) := by ring
  have hquadratic : 0 < u * (4 - 21 * u) := mul_pos hpos (by linarith)
  have hquartic : 0 ≤ u ^ 3 * (23 - 8 * u) := mul_nonneg (by positivity) (by linarith)
  linarith

theorem swallowed_lt {q : ℚ} {hq : IsDouble q} (hp : IsDouble p) (h : Swallowed p (.finite q hq))
    (hlarge : 100 ≤ |p|) (htol : 2 ^ (-1000 : ℤ) ≤ |q|) : |p| < 100 * (1 + 2 ^ (-50 : ℤ)) := by
  obtain ⟨_, hround⟩ := round_div_hundred hp
  obtain ⟨y, hy, hquot⟩ := divNat_finite q hq
  have hone := one_le_nearest hlarge
  rw [Swallowed, hround, hquot] at h
  -- the two quotients round to one number
  obtain ⟨x, hx, hxy⟩ : ∃ x, nearest (nearest (|p| / 100) * q) = x ∧ nearest (x / 100) = y := by
    simp only [Double.mul] at h
    cases hprod : Double.round (nearest (|p| / 100) * q) with
    | finite x hx =>
      rw [hprod] at h
      exact ⟨x, Double.round_eq_finite hprod, Double.round_eq_finite h⟩
    | inf negative =>
      rw [hprod] at h
      cases h
    | nan =>
      rw [hprod] at h
      cases h
  have hqy : nearest (q / 100) = y := Double.round_eq_finite hquot
  have hhundredth : ∀ z : ℚ, |z / 100| = |z| / 100 := by
    intro z
    rw [abs_div, abs_of_pos (by norm_num : (0 : ℚ) < 100)]
  have hnormal : (2 : ℚ) ^ (-1022 : ℤ) ≤ 1 := zpow_le_one_of_nonpos₀ one_le_two (by norm_num)
  have hmargin : (2 : ℚ) ^ (-1022 : ℤ) * 200 ≤ |q| := by
    refine le_trans ?_ htol
    rw [show (-1000 : ℤ) = -1022 + 22 by norm_num, zpow_add₀ two_ne_zero]
    gcongr
    norm_num
  have hone := one_le_nearest hlarge
  have hp1 := le_abs_nearest (q := |p| / 100) (by rw [hhundredth, abs_abs]; linarith)
  rw [hhundredth, abs_abs, abs_of_nonneg (by linarith : 0 ≤ nearest (|p| / 100))] at hp1
  clear hround h
  generalize nearest (|p| / 100) = n at *
  have hnq : |n * q| = n * |q| := by rw [abs_mul, abs_of_nonneg (by linarith)]
  have hle : |q| ≤ n * |q| := le_mul_of_one_le_left (abs_nonneg q) hone
  have hpos : (0 : ℚ) < 2 ^ (-1022 : ℤ) := zpow_pos two_pos _
  have hx1 := le_abs_nearest (q := n * q) (by rw [hnq]; linarith)
  rw [hnq, hx] at hx1
  have hu : (2 : ℚ) ^ (-53 : ℤ) < 1 / 8 := by norm_num
  have hu0 : (0 : ℚ) < 2 ^ (-53 : ℤ) := zpow_pos two_pos _
  have hhalf : |q| / 2 ≤ |x| := by
    calc |q| / 2 = |q| * (1 / 2) := by ring
      _ ≤ n * |q| * (1 - 2 ^ (-53 : ℤ)) := by
          gcongr
          linarith
      _ ≤ |x| := hx1
  have hy1 := le_abs_nearest (q := x / 100) (by rw [hhundredth]; linarith)
  have hy2 := abs_nearest_le (q := q / 100) (by rw [hhundredth]; linarith)
  rw [hxy, hhundredth] at hy1
  rw [hqy, hhundredth] at hy2
  have hu50 : (2 : ℚ) ^ (-50 : ℤ) = 8 * 2 ^ (-53 : ℤ) := by norm_num
  rw [hu50]
  generalize (2 : ℚ) ^ (-53 : ℤ) = u at *
  have hfactor : 0 < 1 - u := by linarith
  have hq0 : 0 < |q| := by linarith
  -- three roundings on one side, one on the other
  have htwo : n * (1 - u) ^ 2 ≤ 1 + u := by
    refine le_of_mul_le_mul_right ?_ hq0
    calc n * (1 - u) ^ 2 * |q| = n * |q| * (1 - u) * (1 - u) := by ring
      _ ≤ |x| * (1 - u) := mul_le_mul_of_nonneg_right hx1 hfactor.le
      _ ≤ (1 + u) * |q| := by linarith
  have hthree : |p| / 100 * (1 - u) ^ 3 ≤ 1 + u := by
    calc |p| / 100 * (1 - u) ^ 3 = |p| / 100 * (1 - u) * (1 - u) ^ 2 := by ring
      _ ≤ n * (1 - u) ^ 2 := mul_le_mul_of_nonneg_right hp1 (by positivity)
      _ ≤ 1 + u := htwo
  have hratio := lt_of_cube_le hu0 hu hthree
  linarith

section Reading

variable {repr : ToolValue Double → String} {subtotal subtotal' vat vat' : ToolValue Double} {rate : String}
  {tolPct : Double} {allowedRates : Option (List Double)}

theorem checkVat_of_read {v : Double} (hsub : toMoney subtotal = .ok (some s)) (hrate : rateOf rate = some r)
    (hvat : toMoney vat = .ok (some v)) : checkVat repr subtotal rate vat tolPct allowedRates =
      .ok (.ok (vatCheck s r v tolPct (allowedRates.getD defaultRates))) := by
  unfold checkVat
  rw [hsub, hrate, hvat]
  rfl

/-- Where not all three can be read, both calls answer with an error, or both raise. -/
theorem judgedAlike_of_unread (hsub : toMoney subtotal' = (toMoney subtotal).map (Option.map Double.neg))
    (hvat : toMoney vat' = (toMoney vat).map (Option.map Double.neg))
    (hunread : ∀ s r v : Double, toMoney subtotal = .ok (some s) → rateOf rate = some r →
      toMoney vat ≠ .ok (some v)) :
    JudgedAlike tolPct (checkVat repr subtotal rate vat tolPct allowedRates)
      (checkVat repr subtotal' rate vat' tolPct allowedRates) := by
  unfold checkVat
  rw [hsub, hvat]
  cases hs : toMoney subtotal with
  | error e => trivial
  | ok s =>
    cases hv : toMoney vat with
    | error e => trivial
    | ok v =>
      cases s with
      | none => trivial
      | some s =>
        cases hr : (rateOf rate : Option Double) with
        | none => trivial
        | some r =>
          cases v with
          | none => trivial
          | some v => exact absurd hv (hunread s r v hs hr)

end Reading

/-- A credit note is judged like its invoice where the floor decides; where rounding hides that it does
not, the product is all but 100 or the tolerance all but zero. -/
theorem checkVat_neg_iff (repr : ToolValue Double → String) (subtotal subtotal' vat vat' : ToolValue Double)
    (rate : String) (tolPct : Double) (allowedRates : Option (List Double))
    (hsub : toMoney subtotal' = (toMoney subtotal).map (Option.map Double.neg))
    (hvat : toMoney vat' = (toMoney vat).map (Option.map Double.neg)) :
    (JudgedAlike tolPct (checkVat repr subtotal rate vat tolPct allowedRates)
        (checkVat repr subtotal' rate vat' tolPct allowedRates) ↔
      ∀ s r v, toMoney subtotal = .ok (some s) → rateOf rate = some r → toMoney vat = .ok (some v) →
        FloorDecides s r tolPct) ∧
    ∀ (p q : ℚ) (hq : IsDouble q), IsDouble p → Swallowed p (.finite q hq) →
      |p| < 100 * (1 + 2 ^ (-50 : ℤ)) ∨ |q| < 2 ^ (-1000 : ℤ) := by
  refine ⟨?_, fun p q hq hp hswallowed => ?_⟩
  · have hread : ∀ s r v, toMoney subtotal = .ok (some s) → rateOf rate = some r →
        toMoney vat = .ok (some v) → (JudgedAlike tolPct
          (checkVat repr subtotal rate vat tolPct allowedRates)
          (checkVat repr subtotal' rate vat' tolPct allowedRates) ↔ FloorDecides s r tolPct) := by
      intro s r v hs hr hv
      rw [hs] at hsub
      rw [hv] at hvat
      rw [checkVat_of_read hs hr hv, checkVat_of_read hsub hr hvat]
      exact judgedAlike_iff s r v tolPct _
    constructor
    · exact fun h s r v hs hr hv => (hread s r v hs hr hv).mp h
    · intro h
      by_cases hall : ∃ s r v : Double, toMoney subtotal = .ok (some s) ∧ rateOf rate = some r ∧
          toMoney vat = .ok (some v)
      · obtain ⟨s, r, v, hs, hr, hv⟩ := hall
        exact (hread s r v hs hr hv).mpr (h s r v hs hr hv)
      · exact judgedAlike_of_unread hsub hvat fun s r v hs hr hv => hall ⟨s, r, v, hs, hr, hv⟩
  · by_contra hnot
    push Not at hnot
    have hlarge : 100 ≤ |p| := by
      refine le_trans ?_ hnot.1
      norm_num
    exact absurd (swallowed_lt hp hswallowed hlarge hnot.2) (not_lt.mpr hnot.1)

theorem checkVat_neg_cents : JudgedAlike (Double.round (1 / 2))
    (checkVat plainRepr (.text "10,50") "8" (.text "0,84") (Double.round (1 / 2)) none)
    (checkVat plainRepr (.text "-10,50") "8" (.text "-0,84") (Double.round (1 / 2)) none) := by
  have hsub : toMoney (.text "10,50") = .ok (some (Double.round (21 / 2))) := by decide +kernel
  have hrate : rateOf "8" = some (Double.round 8) := by decide +kernel
  refine (checkVat_neg_iff plainRepr (.text "10,50") (.text "-10,50") (.text "0,84") (.text "-0,84") "8"
    (.round (1 / 2)) none (by decide +kernel) (by decide +kernel)).1.mpr fun s r v hs hr _ => ?_
  obtain rfl : s = Double.round (21 / 2) := Option.some.inj (Except.ok.inj (hs.symm.trans hsub))
  obtain rfl : r = Double.round 8 := Option.some.inj (hr.symm.trans hrate)
  have hproduct : ((Double.round (21 / 2)).mul (.round 8)).value? = some 84 := by decide +kernel
  exact .inr (.inr ⟨84, hproduct, .inr (.inl (by norm_num))⟩)

/-- A credit note with a deviation that its invoice may have. -/
theorem checkVat_neg_differs : ¬ ∀ (repr : ToolValue Double → String)
    (subtotal subtotal' vat vat' : ToolValue Double) (rate : String) (tolPct : Double)
    (allowedRates : Option (List Double)),
    toMoney subtotal' = (toMoney subtotal).map (Option.map Double.neg) →
    toMoney vat' = (toMoney vat).map (Option.map Double.neg) →
    JudgedAlike tolPct (checkVat repr subtotal rate vat tolPct allowedRates)
      (checkVat repr subtotal' rate vat' tolPct allowedRates) := by
  intro h
  have halike := h (fun _ => "") (.text "10000000") (.text "-10000000") (.text "1000100")
    (.text "-1000100") "10" (Double.round (1 / 2)) none (by decide +kernel) (by decide +kernel)
  have hinvoice : checkVat (fun _ => "") (.text "10000000") "10" (.text "1000100")
      (Double.round (1 / 2)) none = .ok (.ok ⟨Double.round 1000000, .round 1000100, .round 100,
        .round 5000, true, .round 10, true⟩) := by decide +kernel
  have hcredit : checkVat (fun _ => "") (.text "-10000000") "10" (.text "-1000100")
      (Double.round (1 / 2)) none = .ok (.ok ⟨Double.round (-1000000), .round (-1000100), .round 100,
        .round (1 / 200), false, .round 10, true⟩) := by decide +kernel
  rw [hinvoice, hcredit] at halike
  exact absurd halike.1 (by decide)

end CreditNotes

end Doci
