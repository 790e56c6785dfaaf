/-
# DiceFormula.Proofs.Double.Parts -- the parts of a double

A double is packed into 64 bits: a sign, eleven bits of exponent and 52 bits of
mantissa.  Arithmetic unpacks its operands, works on sign, mantissa and exponent,
and packs the rounded result.

`parts x` is what `x` unpacks to.  A double has the parts it was packed from
(`parts_pack`) if these are `Canonical`, as the parts of every double are
(`canonical_parts`), and no two doubles have the same parts (`parts_injective`).
`magnitude` and `isNegative` are read off the parts (`magnitude_eq`,
`isNegative_eq`).
-/
import DiceFormula.Decimal.Basic
import Mathlib

namespace DiceFormula.Double

open Float.Model UnpackedFloat

set_option autoImplicit false

/-! ## Fields -/

/-- Words of 64 bits, seen as packed doubles. -/
abbrev Word := BitVec Format.binary64.numBits

theorem ofBitVec_toBitVec (s : Sign) : Sign.ofBitVec s.toBitVec = s := by
  cases s <;> rfl

theorem toBitVec_ofBitVec (b : BitVec 1) : (Sign.ofBitVec b).toBitVec = b := by
  revert b; decide

theorem toNat_append_fields {w v : Nat} (a : BitVec w) (b : BitVec v) :
    (a ++ b).toNat = a.toNat * 2 ^ v + b.toNat := by
  rw [BitVec.toNat_append, ← Nat.shiftLeft_add_eq_or_of_lt b.isLt, Nat.shiftLeft_eq]

theorem toNat_packComponents (s : Sign) (e : BitVec 11) (m : BitVec 52) :
    (packComponents .binary64 s e m).toNat =
      s.toBitVec.toNat * 2 ^ 63 + e.toNat * 2 ^ 52 + m.toNat := by
  have outer := toNat_append_fields (s.toBitVec ++ e) m
  have inner := toNat_append_fields s.toBitVec e
  rw [packComponents, outer, inner]
  ring

theorem toNat_unpackMantissa (b : Word) : (unpackMantissa b).toNat = b.toNat % 2 ^ 52 := by
  simp [unpackMantissa]

theorem toNat_unpackExponent (b : Word) :
    (unpackExponent b).toNat = b.toNat / 2 ^ 52 % 2048 := by
  simp [unpackExponent, Nat.shiftRight_eq_div_pow]

theorem toNat_unpackSign (b : Word) : (unpackSign b).toNat = b.toNat / 2 ^ 63 := by
  have small : b.toNat < 2 ^ 64 := b.isLt
  have shifted : (unpackSign b).toNat = b.toNat / 2 ^ 63 % 2 := by
    simp [unpackSign, Nat.shiftRight_eq_div_pow]
  omega

theorem unpackSign_packComponents (s : Sign) (e : BitVec 11) (m : BitVec 52) :
    unpackSign (packComponents .binary64 s e m) = s.toBitVec := by
  apply BitVec.eq_of_toNat_eq
  have packed := toNat_packComponents s e m
  have he := e.isLt
  have hm := m.isLt
  rw [toNat_unpackSign, packed]
  omega

/-- A word is put together from its fields. -/
theorem packComponents_unpack (b : Word) :
    packComponents .binary64 (Sign.ofBitVec (unpackSign b)) (unpackExponent b)
      (unpackMantissa b) = b := by
  apply BitVec.eq_of_toNat_eq
  have hb : b.toNat < 2 ^ 64 := b.isLt
  rw [toNat_packComponents, toBitVec_ofBitVec, toNat_unpackSign, toNat_unpackExponent,
    toNat_unpackMantissa]
  omega

/-! ## Canonical parts -/

/-- The parts of doubles: the exponent of a mantissa of less than 53 bits is the
least one. -/
def Canonical : UnpackedFloat → Prop
  | .finite _ m q _ => m < 2 ^ 53 ∧ -1074 ≤ q ∧ q ≤ 971 ∧ (2 ^ 52 ≤ m ∨ q = -1074)
  | _ => True

theorem exponentBias_binary64 : Format.binary64.exponentBias = 1023 := rfl

theorem canonical_unpack (b : Word) : Canonical (unpack .binary64 b) := by
  have hm : (unpackMantissa b).toNat < 2 ^ 52 := (unpackMantissa b).isLt
  have he : (unpackExponent b).toNat < 2048 := (unpackExponent b).isLt
  unfold UnpackedFloat.unpack
  dsimp only
  split
  · split <;> trivial
  · rename_i notTop
    split
    · rename_i subnormal
      split
      · trivial
      · have : (unpackExponent b).toNat = 0 := by rw [subnormal]; rfl
        simp only [Canonical, exponentBias_binary64, this]
        omega
    · rename_i normal
      have top : (unpackExponent b).toNat ≠ 2047 :=
        fun h => notTop (BitVec.eq_of_toNat_eq h)
      have bottom : (unpackExponent b).toNat ≠ 0 :=
        fun h => normal (BitVec.eq_of_toNat_eq h)
      have leading := toNat_append_fields 1#1 (unpackMantissa b)
      simp only [Canonical, exponentBias_binary64, leading, BitVec.toNat_ofNat]
      omega

theorem log2_of_normal {m : Nat} (low : 2 ^ 52 ≤ m) (high : m < 2 ^ 53) : m.log2 = 52 := by
  have nonzero : m ≠ 0 := by omega
  have atLeast := (Nat.le_log2 nonzero).2 low
  have below := (Nat.log2_lt nonzero).2 high
  omega

theorem log2_of_subnormal {m : Nat} (pos : 0 < m) (high : m < 2 ^ 52) : m.log2 < 52 :=
  (Nat.log2_lt (Nat.ne_of_gt pos)).2 high

/-- The word of a double that is no zero. -/
theorem pack_finite (s : Sign) {m : Nat} {q : Int} (pos : 0 < m) (le : q ≤ 971) :
    UnpackedFloat.pack .binary64 (.finite s m q pos) =
      if m.log2 = 52 then
        packComponents .binary64 s (BitVec.ofNat 11 (q + 1075).toNat) (BitVec.ofNat 52 m)
      else packComponents .binary64 s 0#11 (BitVec.ofNat 52 m) := by
  have biased : (q + (Format.binary64.exponentBias : Int) +
      (Format.binary64.mantissaBitsWithoutImplicit : Int)).toNat = (q + 1075).toNat := by
    rw [exponentBias_binary64]
    show (q + (1023 : Nat) + (52 : Nat) : Int).toNat = _
    omega
  have fits : ¬ 2 ^ 11 ≤ (q + 1075).toNat + 1 := by omega
  have digits : (m.log2 + 1 = Format.binary64.mantissaBits) = (m.log2 = 52) := by
    have : Format.binary64.mantissaBits = 53 := rfl
    rw [this, Nat.add_right_cancel_iff]
  simp only [UnpackedFloat.pack, biased]
  rw [if_neg fits]
  simp only [digits]

theorem unpack_packComponents (s : Sign) (e : BitVec 11) (m : BitVec 52) :
    unpack .binary64 (packComponents .binary64 s e m) =
      if e = -1#11 then if m = 0#52 then .infinity s else .notANumber
      else if e = 0#11 then
        if h : m = 0#52 then .zero s
        else .finite s m.toNat (-1074) (by simpa [Nat.pos_iff_ne_zero, ← BitVec.toNat_inj] using h)
      else .finite s (2 ^ 52 + m.toNat) (e.toNat - 1075) (by omega) := by
  have leading := toNat_append_fields 1#1 m
  simp only [UnpackedFloat.unpack, unpackMantissa_packComponents, unpackExponent_packComponents,
    unpackSign_packComponents, ofBitVec_toBitVec, exponentBias_binary64]
  split
  · rfl
  · split
    · rename_i zero
      subst zero
      rfl
    · congr 1

theorem unpack_pack {u : UnpackedFloat} (canonical : Canonical u) :
    unpack .binary64 (UnpackedFloat.pack .binary64 u) = u := by
  cases u with
  | notANumber => rfl
  | infinity s => cases s <;> rfl
  | zero s => cases s <;> rfl
  | finite s m q pos =>
      obtain ⟨high, least, most, shape⟩ := canonical
      by_cases low : 2 ^ 52 ≤ m
      · have exponent : (BitVec.ofNat 11 (q + 1075).toNat).toNat = (q + 1075).toNat := by
          rw [BitVec.toNat_ofNat, Nat.mod_eq_of_lt (by omega)]
        have mantissa : (BitVec.ofNat 52 m).toNat = m - 2 ^ 52 := by
          rw [BitVec.toNat_ofNat]; omega
        have notTop : BitVec.ofNat 11 (q + 1075).toNat ≠ -1#11 := fun h => by
          have : (q + 1075).toNat = 2047 := exponent.symm.trans (congrArg BitVec.toNat h)
          omega
        have notBottom : BitVec.ofNat 11 (q + 1075).toNat ≠ 0#11 := fun h => by
          have : (q + 1075).toNat = 0 := exponent.symm.trans (congrArg BitVec.toNat h)
          omega
        rw [pack_finite s pos most, if_pos (log2_of_normal low high), unpack_packComponents,
          if_neg notTop, if_neg notBottom]
        simp only [mantissa, exponent, UnpackedFloat.finite.injEq, true_and]
        omega
      · have least : q = -1074 := by omega
        subst least
        have mantissa : (BitVec.ofNat 52 m).toNat = m := by
          rw [BitVec.toNat_ofNat]; omega
        have nonzero : BitVec.ofNat 52 m ≠ 0#52 := fun h => by
          have : m = 0 := mantissa.symm.trans (congrArg BitVec.toNat h)
          omega
        rw [pack_finite s pos most, if_neg (log2_of_subnormal pos (by omega)).ne,
          unpack_packComponents, if_neg (by decide), if_pos rfl, dif_neg nonzero]
        simp only [mantissa]

theorem pack_unpack_packComponents (s : Sign) (e : BitVec 11) (m : BitVec 52)
    (canonicalNaN : e = -1#11 → m ≠ 0#52 → packComponents .binary64 s e m = packedNaN .binary64) :
    UnpackedFloat.pack .binary64 (unpack .binary64 (packComponents .binary64 s e m)) =
      packComponents .binary64 s e m := by
  have hm : m.toNat < 2 ^ 52 := m.isLt
  have he : e.toNat < 2048 := e.isLt
  rw [unpack_packComponents]
  split
  · rename_i top
    split
    · rename_i zero
      subst top zero
      rfl
    · rename_i payload
      exact (canonicalNaN top payload).symm
  · rename_i notTop
    split
    · rename_i bottom
      subst bottom
      split
      · rename_i zero
        subst zero
        rfl
      · rename_i nonzero
        have pos : 0 < m.toNat := Nat.pos_of_ne_zero fun h => nonzero (BitVec.eq_of_toNat_eq h)
        rw [pack_finite s pos (by omega), if_neg (log2_of_subnormal pos hm).ne, BitVec.ofNat_toNat,
          BitVec.setWidth_eq]
    · rename_i notBottom
      have top : e.toNat ≠ 2047 := fun h => notTop (BitVec.eq_of_toNat_eq h)
      have exponent : BitVec.ofNat 11 (e.toNat - 1075 + 1075 : Int).toNat = e := by
        apply BitVec.eq_of_toNat_eq
        rw [BitVec.toNat_ofNat]
        omega
      have mantissa : BitVec.ofNat 52 (2 ^ 52 + m.toNat) = m := by
        apply BitVec.eq_of_toNat_eq
        rw [BitVec.toNat_ofNat]
        omega
      rw [pack_finite s _ (by omega), if_pos (log2_of_normal (by omega) (by omega)), exponent,
        mantissa]

/-- A word is what its parts pack to. -/
theorem pack_unpack {b : Word} (valid : Format.binary64.Valid b) :
    UnpackedFloat.pack .binary64 (unpack .binary64 b) = b := by
  have fields := packComponents_unpack b
  have packed := pack_unpack_packComponents (Sign.ofBitVec (unpackSign b)) (unpackExponent b)
    (unpackMantissa b) fun top payload => fields.trans (valid.eq_packedNaN top payload)
  rwa [fields] at packed

/-! ## The parts of a double -/

/-- What a double unpacks to. -/
def parts (x : Float) : UnpackedFloat := x.toModel.unpack

/-- The double that parts pack to. -/
def ofParts (u : UnpackedFloat) : Float := .ofModel (.pack u)

theorem canonical_parts (x : Float) : Canonical (parts x) :=
  canonical_unpack _

@[simp] theorem parts_ofParts {u : UnpackedFloat} (canonical : Canonical u) :
    parts (ofParts u) = u :=
  unpack_pack canonical

@[simp] theorem ofParts_parts (x : Float) : ofParts (parts x) = x := by
  have word := pack_unpack x.toModel.valid
  cases x with
  | ofModel model =>
      cases model with
      | mk bits valid =>
          simp only [ofParts, parts, Float.Model.pack, Float.Model.unpack, Float.ofModel.injEq,
            Float.Model.mk.injEq]
          simp only [word, UInt64.ofBitVec_toBitVec]

theorem parts_injective {x y : Float} (same : parts x = parts y) : x = y := by
  rw [← ofParts_parts x, same, ofParts_parts]

/-! ## Sign and magnitude -/

/-- The magnitude of parts. -/
def magnitudeOf : UnpackedFloat → Magnitude
  | .finite _ m q _ => .finite m q
  | .zero _ => .finite 0 (-1074)
  | .infinity _ => .infinite
  | .notANumber => .notANumber

/-- Whether parts have a negative sign. -/
def negativeOf : UnpackedFloat → Bool
  | .finite s _ _ _ | .zero s | .infinity s => s == .negative
  | .notANumber => false

theorem toBits_ofParts (u : UnpackedFloat) :
    (ofParts u).toBits.toNat = (UnpackedFloat.pack .binary64 u).toNat := rfl

theorem toNat_pack_finite (s : Sign) {m : Nat} {q : Int} (pos : 0 < m)
    (canonical : Canonical (.finite s m q pos)) :
    ∃ e < 2047, ∃ field < 2 ^ 52,
      (UnpackedFloat.pack .binary64 (.finite s m q pos)).toNat =
          s.toBitVec.toNat * 2 ^ 63 + e * 2 ^ 52 + field ∧
        ((e = 0 ∧ m = field ∧ q = -1074) ∨ (0 < e ∧ m = 2 ^ 52 + field ∧ q = (e : Int) - 1075)) := by
  obtain ⟨high, least, most, shape⟩ := canonical
  by_cases low : 2 ^ 52 ≤ m
  · refine ⟨(q + 1075).toNat, by omega, m - 2 ^ 52, by omega, ?_, Or.inr (by omega)⟩
    rw [pack_finite s pos most, if_pos (log2_of_normal low high), toNat_packComponents]
    simp only [BitVec.toNat_ofNat]
    omega
  · refine ⟨0, by omega, m, by omega, ?_, Or.inl (by omega)⟩
    rw [pack_finite s pos most, if_neg (log2_of_subnormal pos (by omega)).ne,
      toNat_packComponents]
    simp only [BitVec.toNat_ofNat]
    omega

theorem magnitude_ofParts {u : UnpackedFloat} (canonical : Canonical u) :
    magnitude (ofParts u) = magnitudeOf u := by
  cases u with
  | notANumber => rfl
  | infinity s => cases s <;> rfl
  | zero s => cases s <;> rfl
  | finite s m q pos =>
      obtain ⟨e, he, field, hfield, word, shape⟩ := toNat_pack_finite s pos canonical
      have mantissa : (ofParts (.finite s m q pos)).toBits.toNat % leadingBit = field := by
        rw [toBits_ofParts, word, leadingBit]
        omega
      have exponent : (ofParts (.finite s m q pos)).toBits.toNat / leadingBit % 2048 = e := by
        rw [toBits_ofParts, word, leadingBit]
        omega
      simp only [magnitude, mantissa, exponent, magnitudeOf]
      rcases shape with ⟨rfl, rfl, rfl⟩ | ⟨normal, rfl, rfl⟩
      · rfl
      · split
        · omega
        · omega
        · rfl

theorem isNegative_ofParts {u : UnpackedFloat} (canonical : Canonical u) :
    isNegative (ofParts u) = negativeOf u := by
  cases u with
  | notANumber => rfl
  | infinity s => cases s <;> rfl
  | zero s => cases s <;> rfl
  | finite s m q pos =>
      obtain ⟨e, he, field, hfield, word, -⟩ := toNat_pack_finite s pos canonical
      simp only [isNegative, toBits_ofParts, word, negativeOf]
      cases s with
      | negative =>
          have bit : Sign.negative.toBitVec.toNat = 1 := rfl
          rw [bit]
          exact decide_eq_true (by omega)
      | positive =>
          have bit : Sign.positive.toBitVec.toNat = 0 := rfl
          rw [bit]
          exact decide_eq_false (by omega)

theorem magnitude_eq (x : Float) : magnitude x = magnitudeOf (parts x) := by
  conv_lhs => rw [← ofParts_parts x]
  exact magnitude_ofParts (canonical_parts x)

theorem isNegative_eq (x : Float) : isNegative x = negativeOf (parts x) := by
  conv_lhs => rw [← ofParts_parts x]
  exact isNegative_ofParts (canonical_parts x)

end DiceFormula.Double
