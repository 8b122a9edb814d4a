import Mathlib
import Tangent.CodeModule.Literal
import Tangent.Decimal.Read
import Tangent.Proofs.DoubleEquality
import Tangent.Proofs.NearestDouble

/-!
# Literals stand for their doubles

A text with digits says an exact decimal (`Decimal.numeral?`), which is what the reader of decimals
rounds (`Decimal.read?_eq`). A literal says its double exactly if that is a small whole number, and
otherwise seventeen digits of it (`numeral?_literal`), so that it rounds to that double and to no
other one.
-/

namespace Tangent

namespace Decimal

/-! ## Reading -/

/-- The digits behind a point at the front of a text, and the rest. -/
def takeFraction (cs : List Char) : List Char × List Char :=
  match cs with
  | '.' :: rest => takeDigits rest
  | _ => ([], cs)

/-- The sign of a text and the decimal that it says. -/
def numeralOf? (cs : List Char) : Option (Bool × Decimal) :=
  let (negative, cs) := takeSign cs
  let (whole, cs) := takeDigits cs
  let (fraction, cs) := takeFraction cs
  if whole.isEmpty && fraction.isEmpty then none
  else (exponent? cs).map fun e =>
    (negative, ⟨ofDigits (whole ++ fraction), e - Int.ofNat fraction.length⟩)

def numeral? (s : String) : Option (Bool × Decimal) :=
  numeralOf? s.toList

/-- The reader of decimals rounds the decimal that a text says. -/
theorem read?_eq (s : String) : read? s = (numeral? s).bind fun r =>
    (toFloat? r.2.significand r.2.scale).map fun v => if r.1 then -v else v := by
  have hread : read? s =
      let whole := takeDigits (takeSign s.toList).2
      let fraction := takeFraction whole.2
      if whole.1.isEmpty && fraction.1.isEmpty then none
      else (exponent? fraction.2).bind fun e =>
        (toFloat? (ofDigits (whole.1 ++ fraction.1)) (e - Int.ofNat fraction.1.length)).bind
          fun v => some (if (takeSign s.toList).1 then -v else v) := rfl
  rw [hread]
  unfold numeral? numeralOf?
  dsimp only
  split
  · rfl
  · rw [Option.bind_map]
    refine congrArg _ (funext fun e => ?_)
    exact Option.map_eq_bind.symm

/-- All characters are digits. -/
def AreDigits (ds : List Char) : Prop :=
  ∀ c ∈ ds, c.isDigit

theorem takeDigits_append {ds rest : List Char} (hds : AreDigits ds)
    (hrest : ∀ c ∈ rest.head?, c.isDigit = false) : takeDigits (ds ++ rest) = (ds, rest) := by
  unfold takeDigits
  rw [List.takeWhile_append_of_pos hds, List.dropWhile_append_of_pos hds]
  cases rest with
  | nil => simp
  | cons c rest =>
    have hc := hrest c rfl
    rw [List.takeWhile_cons_of_neg (by simp [hc]), List.dropWhile_cons_of_neg (by simp [hc]),
      List.append_nil]

/-- The sign that is written before a number. -/
def signText (negative : Bool) : List Char :=
  if negative then ['-'] else []

theorem takeSign_digits (negative : Bool) {d : Char} {rest : List Char} (hd : d.isDigit) :
    takeSign (signText negative ++ d :: rest) = (negative, d :: rest) := by
  cases negative with
  | true => rfl
  | false =>
    have hminus : d ≠ '-' := by rintro rfl; cases hd
    have hplus : d ≠ '+' := by rintro rfl; cases hd
    unfold takeSign signText
    split
    · next h => simp_all
    · next h => simp_all
    · rfl

theorem toList_toString (n : Nat) : (toString n).toList = Nat.toDigits 10 n :=
  Nat.toList_repr

theorem areDigits_toString (n : Nat) : AreDigits (toString n).toList := fun _ hc =>
  Nat.isDigit_of_mem_toDigits (by decide) (by decide) (toList_toString n ▸ hc)

theorem ofDigits_toString (n : Nat) : ofDigits (toString n).toList = n := by
  rw [toList_toString]
  exact Nat.ofDigitChars_ten_toDigits

theorem exists_toString_cons (n : Nat) : ∃ d ds, (toString n).toList = d :: ds ∧ d.isDigit ∧
    AreDigits ds := by
  have hdigits := areDigits_toString n
  rcases hlist : (toString n).toList with _ | ⟨d, ds⟩
  · rw [toList_toString] at hlist
    exact (Nat.toDigits_ne_nil hlist).elim
  · rw [hlist] at hdigits
    exact ⟨d, ds, rfl, List.forall_mem_cons.1 hdigits⟩

theorem toList_exponentText (x : Int) : ∃ ds,
    (exponentText x).toList = 'e' :: (if x < 0 then '-' else '+') :: ds ∧ ds ≠ [] ∧ AreDigits ds ∧
      ofDigits ds = x.natAbs := by
  have hsign : (if x < 0 then "-" else "+").toList = [if x < 0 then '-' else '+'] := by
    split <;> rfl
  have htext : ∀ digits : String, ("e" ++ (if x < 0 then "-" else "+") ++ digits).toList =
      'e' :: (if x < 0 then '-' else '+') :: digits.toList := by
    intro digits
    rw [String.toList_append, String.toList_append, hsign]
    rfl
  have hdigits := areDigits_toString x.natAbs
  have hvalue := ofDigits_toString x.natAbs
  unfold exponentText
  dsimp only
  by_cases hshort : (toString x.natAbs).length < 2
  · rw [if_pos hshort, htext, String.toList_append]
    exact ⟨_, rfl, List.cons_ne_nil _ _, List.forall_mem_cons.2 ⟨rfl, hdigits⟩, hvalue⟩
  · obtain ⟨d, ds, hlist, -⟩ := exists_toString_cons x.natAbs
    rw [if_neg hshort, htext]
    exact ⟨_, rfl, hlist ▸ List.cons_ne_nil d ds, hdigits, hvalue⟩

/-- An exponent says what it was written for. -/
theorem exponent?_exponentText (x : Int) : exponent? (exponentText x).toList = some x := by
  obtain ⟨ds, hlist, hne, hdigits, hvalue⟩ := toList_exponentText x
  have hsign : takeSign ((if x < 0 then '-' else '+') :: ds) = (decide (x < 0), ds) := by
    split
    · next h => rw [decide_eq_true h]; rfl
    · next h => rw [decide_eq_false h]; rfl
  have htake : takeDigits ds = (ds, []) := by
    have hall : takeDigits (ds ++ []) = (ds, []) := takeDigits_append hdigits (by simp)
    rwa [List.append_nil] at hall
  obtain ⟨d, ds, rfl⟩ := List.exists_cons_of_ne_nil hne
  rw [hlist, exponent?, if_pos (by decide), hsign]
  dsimp only
  rw [htake]
  dsimp only
  rw [hvalue, Int.ofNat_eq_natCast]
  refine congrArg some ?_
  simp only [decide_eq_true_eq]
  split_ifs <;> omega

theorem takeFraction_point {fraction tail : List Char} (hfraction : AreDigits fraction)
    (htail : ∀ c ∈ tail.head?, c.isDigit = false) :
    takeFraction ('.' :: (fraction ++ tail)) = (fraction, tail) :=
  takeDigits_append hfraction htail

theorem takeFraction_of_ne {tail : List Char} (htail : ∀ c ∈ tail.head?, c ≠ '.') :
    takeFraction tail = ([], tail) := by
  unfold takeFraction
  split
  · next rest => exact (htail '.' rfl rfl).elim
  · rfl

/-- Digits, maybe a point with more digits, and an exponent. -/
theorem numeralOf?_eq {negative : Bool} {d : Char} {e : Int}
    (whole fraction point tail : List Char) (hd : d.isDigit) (hwhole : AreDigits whole)
    (hfraction : AreDigits fraction) (hpoint : point = '.' :: fraction ∨ point = [] ∧ fraction = [])
    (htail : ∀ c ∈ tail.head?, c.isDigit = false ∧ c ≠ '.') (he : exponent? tail = some e) :
    numeralOf? (signText negative ++ d :: (whole ++ (point ++ tail))) =
      some (negative, ⟨ofDigits (d :: (whole ++ fraction)), e - fraction.length⟩) := by
  have hwholeDigits : takeDigits (d :: (whole ++ (point ++ tail))) =
      (d :: whole, point ++ tail) := by
    rw [← List.cons_append]
    refine takeDigits_append (List.forall_mem_cons.2 ⟨hd, hwhole⟩) ?_
    rcases hpoint with rfl | ⟨rfl, -⟩
    · intro c hc
      obtain rfl := Option.some.inj hc
      rfl
    · exact fun c hc => (htail c hc).1
  have hfractionDigits : takeFraction (point ++ tail) = (fraction, tail) := by
    rcases hpoint with rfl | ⟨rfl, rfl⟩
    · exact takeFraction_point hfraction fun c hc => (htail c hc).1
    · exact takeFraction_of_ne fun c hc => (htail c hc).2
  unfold numeralOf?
  rw [takeSign_digits negative hd]
  dsimp only
  rw [hwholeDigits]
  dsimp only
  rw [hfractionDigits]
  dsimp only
  rw [he]
  rfl

/-- Digits in exponent form say a decimal with these digits. -/
theorem numeral?_scientific (negative : Bool) (d : Decimal) (sign : String)
    (hsign : sign.toList = signText negative) :
    numeral? (sign ++ pointed d.digits.1 ++ exponentText d.digits.2) = some (negative, d) := by
  obtain ⟨c, ds, hlist, hc, hds⟩ := exists_toString_cons d.significand
  have hvalue : ofDigits (c :: ds) = d.significand := hlist ▸ ofDigits_toString d.significand
  obtain ⟨rest, htail, -⟩ := toList_exponentText d.digits.2
  have hhead : ∀ c ∈ (exponentText d.digits.2).toList.head?, c.isDigit = false ∧ c ≠ '.' := by
    rw [htail]
    intro c hc
    obtain rfl := Option.some.inj hc
    decide
  have hexponent := exponent?_exponentText d.digits.2
  have hpointed : ∃ point fraction, (pointed d.digits.1).toList = c :: point ∧
      (point = '.' :: fraction ∨ point = [] ∧ fraction = []) ∧ ds = fraction := by
    have hdigits : d.digits.1 = c :: ds := hlist
    rw [hdigits]
    cases ds with
    | nil => exact ⟨[], [], String.toList_singleton .., .inr ⟨rfl, rfl⟩, rfl⟩
    | cons c' ds => exact ⟨_, _, String.toList_ofList, .inl rfl, rfl⟩
  obtain ⟨point, fraction, htext, hpoint, rfl⟩ := hpointed
  rw [numeral?, String.toList_append, String.toList_append, hsign, htext]
  rw [List.append_assoc]
  refine (numeralOf?_eq [] ds point _ hc (List.forall_mem_nil _) hds hpoint hhead
    hexponent).trans ?_
  have hscale : d.digits.2 - ds.length = d.scale := by
    have hlength : d.digits.2 = d.scale + Int.ofNat (c :: ds).length - 1 := by rw [← hlist]; rfl
    rw [hlength, List.length_cons, Int.ofNat_eq_natCast, Nat.cast_succ]
    omega
  rw [List.nil_append, hvalue, hscale]

end Decimal

/-! ## Literals -/

namespace CodeModule

open Binary64 Decimal Float.Model.UnpackedFloat

theorem whole?_eq {m n : Nat} {e : Int} (h : whole? m e = some n) : (n : ℚ) = m * 2 ^ e := by
  rw [← pow_toNat_div two_ne_zero e]
  unfold whole? at h
  simp only [Nat.pow_eq] at h
  split_ifs at h with he hdvd
  · rw [← Option.some.inj h, show (-e).toNat = 0 by omega, pow_zero, div_one]
    push_cast
    rfl
  · rw [← Option.some.inj h, show e.toNat = 0 by omega, pow_zero, mul_one_div,
      Nat.cast_div (Nat.dvd_of_mod_eq_zero hdvd) (by positivity)]
    push_cast
    rfl

theorem toList_sign (negative : Bool) :
    (if negative then "-" else "").toList = signText negative := by
  cases negative <;> rfl

section Literal

variable {v w : Float} {negative : Bool} {m : Nat} {e : Int}

theorem numeral?_whole (negative : Bool) (n : Nat) :
    numeral? ((if negative then "-" else "") ++ toString n ++ ".") = some (negative, ⟨n, 0⟩) := by
  obtain ⟨c, ds, hlist, hc, hds⟩ := exists_toString_cons n
  have hvalue : ofDigits (c :: ds) = n := hlist ▸ ofDigits_toString n
  rw [numeral?, String.toList_append, String.toList_append, toList_sign, hlist, List.append_assoc]
  refine (numeralOf?_eq ds [] ['.'] [] hc hds (List.forall_mem_nil _) (.inl rfl) (by simp)
    rfl).trans ?_
  rw [List.append_nil, hvalue]
  rfl

/-- Seventeen digits say a decimal that is near the double. -/
theorem numeral?_seventeen (h : ofFloat v = .finite negative m e) (hm : m ≠ 0) :
    ∃ d, numeral? (scientific 17 v) = some (negative, d) ∧
      |d.toRat - m * 2 ^ e| ≤ m * 2 ^ e / (2 * 10 ^ 16) := by
  refine ⟨rounded 17 (quotient m e).1 (quotient m e).2, ?_, ?_⟩
  · unfold scientific
    rw [h]
    dsimp only
    rw [if_neg hm]
    exact numeral?_scientific negative _ _ (toList_sign negative)
  · have hnum : 0 < (quotient m e).1 :=
      Nat.mul_pos (Nat.pos_of_ne_zero hm) (Nat.pow_pos (by decide))
    have hden : 0 < (quotient m e).2 := Nat.pow_pos (by decide)
    have hnear := abs_toRat_rounded_sub_le (n := 17) (by decide) hnum hden
    rwa [quotient_div] at hnear

/-- A literal says a decimal with the sign of its double, which is near the double. -/
theorem numeral?_literal (h : ofFloat v = .finite negative m e) :
    ∃ d, numeral? (literal v) = some (negative, d) ∧
      |d.toRat - m * 2 ^ e| ≤ m * 2 ^ e / (2 * 10 ^ 16) := by
  unfold literal
  rw [h]
  dsimp only
  cases hwhole : whole? m e with
  | none =>
    refine numeral?_seventeen h ?_
    rintro rfl
    unfold whole? at hwhole
    split_ifs at hwhole with h1 h2
    exact h2 (Nat.zero_mod _)
  | some n =>
    have hvalue := whole?_eq hwhole
    dsimp only
    split
    · refine ⟨_, numeral?_whole negative n, ?_⟩
      rw [← hvalue, toRat, zpow_zero, mul_one, sub_self, abs_zero]
      positivity
    · next hlarge =>
      refine numeral?_seventeen h ?_
      rintro rfl
      rw [Nat.cast_zero, zero_mul, Nat.cast_eq_zero] at hvalue
      exact hlarge (hvalue ▸ Nat.zero_le _)

/-- A literal rounds to its double and to no other one. -/
theorem roundsTo_literal (h : ofFloat v = .finite negative m e) :
    ∃ d, numeral? (literal v) = some (negative, d) ∧
      ∀ bits, RoundsTo negative (signed negative d.toRat) bits ↔ bits = v.toBits := by
  obtain ⟨d, htext, hnear⟩ := numeral?_literal h
  refine ⟨d, htext, fun bits => roundsTo_iff h ?_⟩
  rwa [abs_value, value, abs_signed_sub]

theorem literal_of_infinite (h : ofFloat v = .infinite negative) :
    literal v = if negative then "-INFINITY" else "INFINITY" := by
  unfold literal
  rw [h]

/-- An infinite literal has no digits. -/
theorem numeral?_infinite (h : ofFloat v = .infinite negative) : numeral? (literal v) = none := by
  have hnumeral : ∀ cs, numeral? (String.ofList cs) = numeralOf? cs := fun cs => by
    rw [numeral?, String.toList_ofList]
  rw [literal_of_infinite h]
  cases negative
  · exact (hnumeral _).trans rfl
  · exact (hnumeral _).trans rfl

theorem eq_of_toBits_eq (h : v.toBits = w.toBits) : v = w :=
  Scalar.Faithful.eq_of_identical (beq_iff_eq.2 h)

theorem eq_of_literal_eq (hv : ofFloat v ≠ .nan) (hw : ofFloat w ≠ .nan)
    (h : literal v = literal w) : v = w := by
  refine eq_of_toBits_eq ?_
  cases hofv : ofFloat v with
  | nan => exact (hv hofv).elim
  | infinite negative =>
    cases hofw : ofFloat w with
    | nan => exact (hw hofw).elim
    | infinite negative' =>
      have hsign : negative = negative' := by
        rw [literal_of_infinite hofv, literal_of_infinite hofw] at h
        revert h
        cases negative <;> cases negative' <;> decide
      exact eq_of_ofBits_eq (hofv.trans (hsign ▸ hofw.symm)) hv
    | finite negative' m e =>
      obtain ⟨d, htext, -⟩ := numeral?_literal hofw
      rw [← h, numeral?_infinite hofv] at htext
      cases htext
  | finite negative m e =>
    obtain ⟨d, htext, hrounds⟩ := roundsTo_literal hofv
    cases hofw : ofFloat w with
    | nan => exact (hw hofw).elim
    | infinite negative' =>
      rw [h, numeral?_infinite hofw] at htext
      cases htext
    | finite negative' m' e' =>
      obtain ⟨d', htext', hrounds'⟩ := roundsTo_literal hofw
      rw [h, htext'] at htext
      cases htext
      exact (hrounds' v.toBits).1 ((hrounds v.toBits).2 rfl)

/-- All bits belong to a double, if they are a number. -/
theorem exists_toBits_eq {bits : UInt64} (h : Binary64.ofBits bits ≠ .nan) :
    ∃ v : Float, v.toBits = bits := by
  have hvalid : Float.Model.Format.binary64.Valid bits.toBitVec := by
    constructor
    intro hexponent hmantissa
    refine absurd (ofBits_eq_nan_iff.2 ⟨?_, fun hzero => hmantissa ?_⟩) h
    · have hbits := congrArg BitVec.toNat hexponent
      simp only [unpackExponent, BitVec.toNat_cast, BitVec.extractLsb_toNat,
        Nat.shiftRight_eq_div_pow, Nat.reduceAdd, Nat.reduceSub, Nat.reducePow] at hbits
      exact hbits
    · refine BitVec.eq_of_toNat_eq ?_
      simp only [unpackMantissa, BitVec.toNat_cast, BitVec.extractLsb_toNat,
        Nat.shiftRight_eq_div_pow, Nat.reduceAdd, Nat.reduceSub, Nat.reducePow, Nat.div_one]
      exact hzero
  exact ⟨.ofModel ⟨bits, hvalid⟩, rfl⟩

end Literal

/-- Literals stand for their doubles. Whatever bits a finite double has, its literal says a decimal,
in the grammar of the reader of decimals, that rounds to this double and to no other one. So
different doubles have different literals. -/
theorem literal_rounds_back :
    (∀ bits, Binary64.ofBits bits ≠ .nan → ∃ v : Float, v.toBits = bits) ∧
      (∀ s, Decimal.read? s = (numeral? s).bind fun r =>
        (toFloat? r.2.significand r.2.scale).map fun v => if r.1 then -v else v) ∧
      (∀ (v : Float) negative m e, ofFloat v = .finite negative m e →
        ∃ d, numeral? (literal v) = some (negative, d) ∧
          ∀ bits, RoundsTo negative (signed negative d.toRat) bits ↔ bits = v.toBits) ∧
      ∀ v w : Float, ofFloat v ≠ .nan → ofFloat w ≠ .nan → literal v = literal w → v = w :=
  ⟨fun _ => exists_toBits_eq, read?_eq, fun _ _ _ _ => roundsTo_literal,
    fun _ _ => eq_of_literal_eq⟩

/-- The least positive double, the negative zero, and one half, below which the doubles are twice as
dense. -/
theorem literal_rounds_back_boundaries :
    ∀ bits ∈ [1, 0x8000000000000000, 0x3fe0000000000000], ∃ v : Float, v.toBits = bits ∧
      ∃ d, numeral? (literal v) = some (Binary64.signBit bits, d) ∧
        ∀ bits', RoundsTo (Binary64.signBit bits) (signed (Binary64.signBit bits) d.toRat) bits' ↔
          bits' = bits := by
  intro bits hbits
  have hfinite : ∃ m e, Binary64.ofBits bits = .finite (Binary64.signBit bits) m e := by
    simp only [List.mem_cons, List.not_mem_nil, or_false] at hbits
    rcases hbits with rfl | rfl | rfl
    · exact ⟨1, -1074, by decide⟩
    · exact ⟨0, -1074, by decide⟩
    · exact ⟨4503599627370496, -53, by decide⟩
  obtain ⟨m, e, h⟩ := hfinite
  obtain ⟨hexists, -, hrounds, -⟩ := literal_rounds_back
  obtain ⟨v, rfl⟩ := hexists bits (by rw [h]; exact Binary64.noConfusion)
  exact ⟨v, rfl, hrounds v _ m e h⟩

end CodeModule

end Tangent
