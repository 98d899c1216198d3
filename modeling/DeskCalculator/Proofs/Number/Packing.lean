import DeskCalculator.Proofs.Number.Rounding

/-!
The 64 bits of a double. Packing and unpacking undo each other on what fits into a double, and a
value whose exponent does not fit is packed as an infinity.
-/
namespace DeskCalculator.Number

open Float.Model Float.Model.UnpackedFloat

def Fits : UnpackedFloat → Prop
  | .finite _ m e _ => IsCanonical m e ∧ e ≤ 971
  | _ => True

section Components

variable (sign : Sign) {exponent : BitVec 11} {mantissa : BitVec 52}

theorem unpack_packedInfinity :
    unpack Format.binary64 (packComponents Format.binary64 sign (-1#11) 0#52) = .infinity sign := by
  cases sign <;> rfl

theorem unpack_subnormal (hm : 0 < mantissa.toNat) :
    unpack Format.binary64 (packComponents Format.binary64 sign 0#11 mantissa) =
      .finite sign mantissa.toNat (-1074) hm := by
  have hne : mantissa ≠ 0#52 := by
    rintro rfl
    exact absurd hm (by decide)
  have hexp : 0#11 ≠ -1#11 := by decide
  simp only [UnpackedFloat.unpack, unpackExponent_packComponents, unpackMantissa_packComponents,
    unpackSign_packComponents, Sign.ofBitVec_toBitVec]
  rw [if_neg hexp, if_pos trivial, dif_neg hne]
  rfl

theorem unpack_normal (hlo : 0 < exponent.toNat) (hhi : exponent.toNat < 2047) :
    unpack Format.binary64 (packComponents Format.binary64 sign exponent mantissa) =
      .finite sign (2 ^ 52 + mantissa.toNat) (exponent.toNat - 1075) (by omega) := by
  have hzero : exponent ≠ 0#11 := by
    rintro rfl
    exact absurd hlo (by decide)
  have hones : exponent ≠ -1#11 := by
    rintro rfl
    exact absurd hhi (by decide)
  have hmantissa : (1#1 ++ mantissa).toNat = 2 ^ 52 + mantissa.toNat := by
    rw [BitVec.toNat_append, ← Nat.shiftLeft_add_eq_or_of_lt mantissa.isLt]
    rfl
  simp only [UnpackedFloat.unpack, unpackExponent_packComponents, unpackMantissa_packComponents,
    unpackSign_packComponents, Sign.ofBitVec_toBitVec]
  rw [if_neg hones, if_neg hzero]
  congr 1

end Components

theorem pack_subnormal {sign : Sign} {m : ℕ} (hpos : 0 < m) (hm : m < 2 ^ 52) :
    UnpackedFloat.pack Format.binary64 (.finite sign m (-1074) hpos) =
      packComponents Format.binary64 sign 0#11 (BitVec.ofNat 52 m) := by
  have hlog : Nat.log2 m < 52 := (Nat.log2_lt hpos.ne').mpr hm
  have hbits : Format.binary64.mantissaBits = 53 := by decide
  have hnot : ¬ Nat.log2 m + 1 = Format.binary64.mantissaBits := by omega
  rw [UnpackedFloat.pack]
  simp only [if_neg hnot]
  rfl

theorem pack_normal {sign : Sign} {m : ℕ} {e : ℤ} (hpos : 0 < m) (hlo : 2 ^ 52 ≤ m)
    (hhi : m < 2 ^ 53) (he : e ≤ 971) :
    UnpackedFloat.pack Format.binary64 (.finite sign m e hpos) =
      packComponents Format.binary64 sign (BitVec.ofNat 11 (e + 1075).toNat)
        (BitVec.ofNat 52 m) := by
  have hlog : Nat.log2 m = 52 := (Nat.log2_eq_iff hpos.ne').mpr ⟨hlo, hhi⟩
  have hbits : Format.binary64.mantissaBits = 53 := by decide
  have hnormal : Nat.log2 m + 1 = Format.binary64.mantissaBits := by omega
  have hbias : e + Format.binary64.exponentBias + (52 : ℕ) = e + 1075 := by
    have : (Format.binary64.exponentBias : ℤ) = 1023 := by decide
    omega
  have hfits : ¬ 2 ^ 11 ≤ (e + 1075).toNat + 1 := by omega
  rw [UnpackedFloat.pack]
  simp only [if_pos hnormal, hbias]
  rw [if_neg hfits]

theorem pack_large {sign : Sign} {m : ℕ} {e : ℤ} (hm : 0 < m) (he : 971 < e) :
    UnpackedFloat.pack Format.binary64 (.finite sign m e hm) =
      packComponents Format.binary64 sign (-1#11) 0#52 := by
  have hbias : e + Format.binary64.exponentBias + (52 : ℕ) = e + 1075 := by
    have : (Format.binary64.exponentBias : ℤ) = 1023 := by decide
    omega
  have hlarge : 2 ^ 11 ≤ (e + 1075).toNat + 1 := by omega
  rw [UnpackedFloat.pack]
  simp only [hbias]
  rw [if_pos hlarge]
  rfl

theorem unpack_notANumber {sign : Sign} {mantissa : BitVec 52} (hm : mantissa ≠ 0#52) :
    unpack Format.binary64 (packComponents Format.binary64 sign (-1#11) mantissa) =
      .notANumber := by
  simp only [UnpackedFloat.unpack, unpackExponent_packComponents, unpackMantissa_packComponents]
  rw [if_pos trivial, if_neg hm]

/-- Whatever is unpacked can be packed. -/
theorem fits_unpack_packComponents (sign : Sign) (exponent : BitVec 11) (mantissa : BitVec 52) :
    Fits (unpack Format.binary64 (packComponents Format.binary64 sign exponent mantissa)) := by
  have hm := mantissa.isLt
  by_cases hones : exponent = -1#11
  · subst hones
    by_cases hzero : mantissa = 0#52
    · rw [hzero, unpack_packedInfinity]
      trivial
    · rw [unpack_notANumber hzero]
      trivial
  by_cases hleast : exponent = 0#11
  · subst hleast
    by_cases hzero : mantissa = 0#52
    · rw [hzero]
      change Fits (unpack Format.binary64 (packedZero Format.binary64 sign))
      rw [unpack_packedZero]
      trivial
    · have hpos : 0 < mantissa.toNat := by
        apply Nat.pos_of_ne_zero
        intro heq
        exact hzero (BitVec.eq_of_toNat_eq heq)
      rw [unpack_subnormal sign hpos]
      exact ⟨⟨by omega, le_rfl, Or.inl rfl⟩, by omega⟩
  · have hlo : 0 < exponent.toNat := by
      apply Nat.pos_of_ne_zero
      intro heq
      exact hleast (BitVec.eq_of_toNat_eq heq)
    have hhi : exponent.toNat < 2047 := by
      have hlt := exponent.isLt
      have hne : exponent.toNat ≠ 2047 := fun heq => hones (BitVec.eq_of_toNat_eq heq)
      omega
    rw [unpack_normal sign hlo hhi]
    exact ⟨⟨by omega, by omega, Or.inr (by omega)⟩, by omega⟩

theorem fits_unpack (x : Float.Model) : Fits x.unpack := by
  have hbits := @packComponents_unpackSign_unpackExponent_unpackMantissa Format.binary64
    x.toBits.toBitVec
  rw [Float.Model.unpack, ← hbits]
  exact fits_unpack_packComponents _ _ _

theorem pack_unpack (x : Float.Model) : pack x.unpack = x := by
  obtain ⟨bits, hvalid⟩ := x
  simp only [Float.Model.pack, Float.Model.unpack, pack_unpack_of_valid hvalid]

/-- Packing loses nothing that fits. -/
theorem unpack_pack {u : UnpackedFloat} (h : Fits u) : (pack u).unpack = u := by
  rcases u with sign | _ | sign | ⟨sign, m, e, hpos⟩
  · exact unpack_packedInfinity sign
  · rfl
  · exact unpack_packedZero
  · obtain ⟨⟨hhi, hleast, hfull⟩, he⟩ := h
    change UnpackedFloat.unpack _ (UnpackedFloat.pack _ _) = _
    rcases Nat.lt_or_ge m (2 ^ 52) with hlo | hlo
    · obtain rfl : e = -1074 := hfull.resolve_right (by omega)
      have hm : (BitVec.ofNat 52 m).toNat = m := Nat.mod_eq_of_lt hlo
      rw [pack_subnormal hpos hlo, unpack_subnormal sign (hm.symm ▸ hpos)]
      simp only [hm]
    · have hm : 2 ^ 52 + (BitVec.ofNat 52 m).toNat = m := by
        rw [BitVec.toNat_ofNat]
        omega
      have hexp : (BitVec.ofNat 11 (e + 1075).toNat).toNat = (e + 1075).toNat := by
        rw [BitVec.toNat_ofNat]
        omega
      rw [pack_normal hpos hlo hhi he, unpack_normal sign (by omega) (by omega)]
      simp only [hm, hexp]
      congr 1
      omega

theorem unpack_pack_of_large {sign : Sign} {m : ℕ} {e : ℤ} (hm : 0 < m) (he : 971 < e) :
    (pack (.finite sign m e hm)).unpack = .infinity sign := by
  change UnpackedFloat.unpack _ (UnpackedFloat.pack _ _) = _
  rw [pack_large hm he, unpack_packedInfinity]

end DeskCalculator.Number
