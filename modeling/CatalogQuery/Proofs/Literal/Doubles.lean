import CatalogQuery.Literal.Value
import CatalogQuery.Proofs.Binary.Halfway

/-!
# The two ways in which a double becomes a literal

A double becomes a decimal literal by its digits without a power of ten, and as a JSON number by
its digits with a point and perhaps a power. The literals are equal, or both texts are refused,
except for two kinds of doubles:

* all digits stand below `10 ^ -28`: the first text is rounded, and the second one is refused;
* the double is exactly between two shortest decimals: the texts say different ones.

`doubles_agree_iff` says so of every double.
-/

namespace CatalogQuery

namespace Literal

/-- Two conversions agree: both are refused, or both give decimals and these are equal. -/
def Agree (a b : Except LiteralError Literal) : Prop :=
  (∃ s t, a = .error (.unsupported s) ∧ b = .error (.unsupported t)) ∨
    ∃ d d', a = .ok (.decimal d) ∧ b = .ok (.decimal d') ∧ d.equal d' = true

theorem agree_iff (s t : List Char) : Agree (decimalOfText? s) (decimalOfText? t) ↔
    (Decimal.read s).toOption.map Decimal.value = (Decimal.read t).toOption.map Decimal.value := by
  unfold decimalOfText?
  cases Decimal.read s <;> cases Decimal.read t <;>
    simp [Agree, refuse, Decimal.equal_iff_value]

theorem decimalOfText?_eq_ok {text : List Char} {d : Decimal}
    (h : (Decimal.read text).toOption = some d) : decimalOfText? text = .ok (.decimal d) := by
  rw [decimalOfText?, Outcome.toOption_eq_some.mp h]

theorem decimalOfText?_eq_error {text : List Char} (h : (Decimal.read text).toOption = none) :
    decimalOfText? text = .error (.unsupported (String.ofList text)) := by
  obtain ⟨fault, failed⟩ := Outcome.toOption_eq_none.mp h
  rw [decimalOfText?, failed]
  rfl

/-! ### A double in both ways -/

open Binary (DecimalForm)

variable {x : Binary.Finite .double}

theorem ofBinary?_finite (x : Binary.Finite .double) :
    ofBinary? (.finite x) = decimalOfText? x.plainText := rfl

theorem ofPlainJson?_double (x : Binary.Finite .double) :
    ofPlainJson? (.number (.double x)) = decimalOfText? x.jsonText := rfl

theorem agree_of_same (same : x.shortest .greater = x.shortest .even)
    (near : -28 ≤ (x.shortest .even).leading) :
    Agree (ofBinary? (.finite x)) (ofPlainJson? (.number (.double x))) := by
  rw [ofBinary?_finite, ofPlainJson?_double, agree_iff, Binary.Finite.plainText,
    Binary.Finite.jsonText, same]
  exact (DecimalForm.pointed_agrees (x.reads_shortest .even) near x.negative).symm

/-- What is too small for its places is rounded one way and refused the other. -/
theorem refused_of_far (same : x.shortest .greater = x.shortest .even)
    (far : (x.shortest .even).leading < -28) :
    (∃ d, ofBinary? (.finite x) = .ok (.decimal d)) ∧
      ofPlainJson? (.number (.double x)) = .error (.unsupported (String.ofList x.jsonText)) := by
  obtain ⟨refused, d, read⟩ :=
    DecimalForm.pointed_refused (x.reads_shortest .even) far x.negative
  have plain : (Decimal.read x.plainText).toOption = some d := by
    rw [Binary.Finite.plainText, same]
    exact read
  exact ⟨⟨d, decimalOfText?_eq_ok plain⟩, decimalOfText?_eq_error refused⟩

/-- What is exactly between two decimals becomes one of them each way. -/
theorem differ_of_ne (differ : x.shortest .greater ≠ x.shortest .even) :
    ∃ d d', ofBinary? (.finite x) = .ok (.decimal d) ∧
      ofPlainJson? (.number (.double x)) = .ok (.decimal d') ∧ d.equal d' = false := by
  obtain ⟨a, b, ha, hb, apart⟩ := Binary.Finite.texts_differ differ
  obtain ⟨d, plain, rfl⟩ := Option.map_eq_some_iff.mp ha
  obtain ⟨d', pointed, rfl⟩ := Option.map_eq_some_iff.mp hb
  refine ⟨d, d', decimalOfText?_eq_ok plain, decimalOfText?_eq_ok pointed, ?_⟩
  rw [Bool.eq_false_iff, ne_eq, Decimal.equal_iff_value]
  exact apart

end Literal

open Literal

/-- **The two ways in which a double becomes a literal agree** unless the texts say different
decimals, or all their digits stand below the last place of a decimal. -/
theorem doubles_agree_iff (x : Binary.Finite .double) :
    (Agree (ofBinary? (.finite x)) (ofPlainJson? (.number (.double x))) ↔
      x.shortest .greater = x.shortest .even ∧ -28 ≤ (x.shortest .even).leading) ∧
    (x.shortest .greater = x.shortest .even → (x.shortest .even).leading < -28 →
      (∃ d, ofBinary? (.finite x) = .ok (.decimal d)) ∧
        ofPlainJson? (.number (.double x)) = .error (.unsupported (String.ofList x.jsonText))) ∧
    (x.shortest .greater ≠ x.shortest .even →
      ∃ d d', ofBinary? (.finite x) = .ok (.decimal d) ∧
        ofPlainJson? (.number (.double x)) = .ok (.decimal d') ∧ d.equal d' = false) := by
  refine ⟨⟨fun agree => ?_, fun ⟨same, near⟩ => agree_of_same same near⟩, refused_of_far,
    differ_of_ne⟩
  have same : x.shortest .greater = x.shortest .even := by
    by_contra differ
    obtain ⟨d, d', plain, stored, apart⟩ := differ_of_ne differ
    rw [plain, stored] at agree
    simp [Agree, apart] at agree
  refine ⟨same, Int.not_lt.mp fun far => ?_⟩
  obtain ⟨⟨d, plain⟩, stored⟩ := refused_of_far same far
  rw [plain, stored] at agree
  simp [Agree] at agree

def leastDouble : Binary.Finite .double := ⟨false, 1, -1074, by decide⟩

theorem leastDouble_disagrees :
    leastDouble.shortest .greater = leastDouble.shortest .even ∧
      (leastDouble.shortest .even).leading < -28 ∧
      (∃ d, ofBinary? (.finite leastDouble) = .ok (.decimal d)) ∧
      ofPlainJson? (.number (.double leastDouble)) = .error (.unsupported "5e-324") := by
  have same : leastDouble.shortest .greater = leastDouble.shortest .even := by decide +kernel
  have far : (leastDouble.shortest .even).leading < -28 := by decide +kernel
  have text : String.ofList leastDouble.jsonText = "5e-324" := by decide +kernel
  obtain ⟨rounded, refused⟩ := (doubles_agree_iff leastDouble).2.1 same far
  rw [text] at refused
  exact ⟨same, far, rounded, refused⟩

/-- The double `1456788568731504.25` is exactly between two decimals of sixteen digits. -/
example :
    let x : Binary.Finite .double := ⟨false, 5827154274926017, -2, by decide⟩
    String.ofList x.plainText = "1456788568731504.3" ∧
      String.ofList x.jsonText = "1456788568731504.2" := by decide +kernel

end CatalogQuery
