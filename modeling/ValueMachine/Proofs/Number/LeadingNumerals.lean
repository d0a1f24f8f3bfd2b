import ValueMachine.Proofs.Number.MeasuredNumerals
import ValueMachine.Text.Blank

/-!
# The numeral at the front of a text

The forgiving reader measures a numeral and hands it to a strict reader. What is measured is the
longest numeral that the text begins with. So whichever strict reader is used, as long as it takes the
numerals and rounds them to the nearest double, the forgiving reader answers the value of that numeral.

Results:
* `isStrict_readWhole?`: `readWhole?` is a strict reader;
* `leading?_spec`: the numeral that is measured;
* `reads_longest_numeral`: what the forgiving reader answers.
-/

namespace ValueMachine.Number

open Json (IsDigits SpellsExponent)
open Numeral

/-! ## The readers -/

/-- The text is a numeral. -/
def IsNumeral (text : List Char) : Prop := ∃ n, SpellsNumeral n text

/-- The longest numeral that the text begins with. -/
structure IsLongest (front text : List Char) : Prop where
  prefixed : front <+: text
  isNumeral : IsNumeral front
  longest : ∀ other, other <+: text → IsNumeral other → other.length ≤ front.length

/-- A reader that takes the numerals and no other texts, and rounds them to the nearest double. -/
structure IsStrict (numeral? : List Char → Option Float) : Prop where
  takes_iff (text : List Char) : (numeral? text).isSome = true ↔ IsNumeral text
  rounds {text : List Char} {n : Written} {x : Float} (spells : SpellsNumeral n text)
    (reads : numeral? text = some x) : Denotes n x

variable {text : List Char}

/-- A numeral is read by `readWhole?` as what it stands for. -/
theorem readWhole?_of_spellsNumeral {n : Written} (spells : SpellsNumeral n text) :
    readWhole? text = some n.numeral.value := by
  rw [readWhole?, scan_of_spells spells]

/-- It takes no other text. -/
theorem isNumeral_of_readWhole? {x : Float} (reads : readWhole? text = some x) : IsNumeral text := by
  rcases leading?_cases text with ⟨none, -⟩ | ⟨n, front, rest, eq, spells, scans, -⟩
  · rw [readWhole?, none] at reads
    cases reads
  · rw [readWhole?, scans] at reads
    cases rest with
    | nil =>
      rw [eq, List.append_nil]
      exact ⟨n, spells⟩
    | cons c rest => cases reads

theorem isStrict_readWhole? : IsStrict readWhole? where
  takes_iff text := by
    constructor
    · intro reads
      obtain ⟨x, reads⟩ := Option.isSome_iff_exists.mp reads
      exact isNumeral_of_readWhole? reads
    · rintro ⟨n, spells⟩
      rw [readWhole?_of_spellsNumeral spells]
      rfl
  rounds spells reads := by
    rw [readWhole?_of_spellsNumeral spells] at reads
    rw [← Option.some.inj reads]
    exact denotes_value spells

/-- There is one way to read a decimal. -/
theorem IsStrict.eq_readWhole? {numeral? : List Char → Option Float} (strict : IsStrict numeral?)
    {negative : Bool} {whole fraction : List Char} {exponent : Option (Bool × List Char)}
    (spells : SpellsNumeral (.decimal negative whole fraction exponent) text) :
    numeral? text = readWhole? text := by
  obtain ⟨x, reads⟩ := Option.isSome_iff_exists.mp ((strict.takes_iff text).mpr ⟨_, spells⟩)
  have own := readWhole?_of_spellsNumeral spells
  cases strict.rounds spells reads with
  | decimal rounded =>
    cases isStrict_readWhole?.rounds spells own with
    | decimal rounded' => rw [reads, own, rounded.unique rounded']

/-! ## The longest numeral -/

/-- What is measured is the longest numeral at the front, if there is one. -/
theorem leading?_spec (text : List Char) :
    leading? text = some [] ∧ (∀ front, front <+: text → ¬IsNumeral front) ∨
      ∃ front, leading? text = some front ∧ IsLongest front text := by
  have least {other : List Char} (prefixed : other <+: text) (is : IsNumeral other) :
      ∃ m after, scan text = some (m, after) ∧ other.length + after.length ≤ text.length := by
    obtain ⟨rest, rfl⟩ := prefixed
    obtain ⟨n, spells⟩ := is
    obtain ⟨m, after, scans, suffix, -⟩ := scan_append_of_spells rest spells
    refine ⟨m, after, scans, ?_⟩
    rw [List.length_append]
    exact Nat.add_le_add_left suffix.length_le _
  rcases leading?_cases text with ⟨none, leads⟩ | ⟨n, front, rest, eq, spells, scans, leads⟩
  · refine .inl ⟨leads, fun front prefixed is => ?_⟩
    obtain ⟨m, after, scans, -⟩ := least prefixed is
    rw [none] at scans
    cases scans
  · refine .inr ⟨front, leads, ⟨rest, eq.symm⟩, ⟨n, spells⟩, fun other prefixed is => ?_⟩
    obtain ⟨m, after, scans', le⟩ := least prefixed is
    rw [scans] at scans'
    obtain ⟨-, rfl⟩ := Prod.mk.inj (Option.some.inj scans')
    rw [eq, List.length_append] at le
    omega

theorem IsNumeral.ne_nil (is : IsNumeral text) : text ≠ [] := by
  rintro rfl
  obtain ⟨n, spells⟩ := is
  have scans := scan_of_spells spells
  have none : scan [] = none := by decide +kernel
  rw [none] at scans
  cases scans

theorem readLeading_of_leading? {numeral? : List Char → Option Float} (strict : IsStrict numeral?)
    {front : List Char} (leads : leading? text = some front) (is : IsNumeral front) :
    numeral? front = some (readLeading numeral? text) := by
  obtain ⟨c, front, rfl⟩ := List.exists_cons_of_ne_nil is.ne_nil
  obtain ⟨x, reads⟩ := Option.isSome_iff_exists.mp ((strict.takes_iff _).mpr is)
  rw [readLeading, leads]
  dsimp only
  rw [reads]
  rfl

/-- A numeral is its own longest numeral. -/
theorem IsLongest.eq_of_isNumeral {front : List Char} (longest : IsLongest front text)
    (is : IsNumeral text) : front = text := by
  apply longest.prefixed.eq_of_length
  exact Nat.le_antisymm longest.prefixed.length_le (longest.longest text List.prefix_rfl is)

/-- The forgiving reader agrees with the strict one. -/
theorem readLeading_of_numeral? {numeral? : List Char → Option Float} (strict : IsStrict numeral?)
    {x : Float} (reads : numeral? text = some x) : readLeading numeral? text = x := by
  have is : IsNumeral text := (strict.takes_iff text).mp (by rw [reads]; rfl)
  rcases leading?_spec text with ⟨-, absent⟩ | ⟨front, leads, longest⟩
  · exact absurd is (absent text List.prefix_rfl)
  · have own := readLeading_of_leading? strict leads longest.isNumeral
    rw [longest.eq_of_isNumeral is, reads] at own
    exact (Option.some.inj own).symm

/-- Whichever strict reader is used, the forgiving reader answers the nearest double to the longest
numeral that a text begins with, leading white space apart, and zero if there is none. The numeral ends
between two characters, and the strict reader never refuses it. Where the strict conversion of the text
gives a number, NaN among them, the forgiving one gives the same. -/
theorem reads_longest_numeral {numeral? : List Char → Option Float} (strict : IsStrict numeral?)
    (text : List Char) :
    let t := Text.trimStart text
    (leading? t = some [] ∧ readLeading numeral? t = zero false ∧
        (∀ front, front <+: t → ¬IsNumeral front) ∨
      ∃ front, leading? t = some front ∧ IsLongest front t ∧
        numeral? front = some (readLeading numeral? t) ∧
        ∀ n, SpellsNumeral n front → Denotes n (readLeading numeral? t)) ∧
    ∀ x ∈ readStrict? numeral? t, readLeading numeral? t = x := by
  intro t
  refine ⟨?_, fun x reads => ?_⟩
  · rcases leading?_spec t with ⟨leads, absent⟩ | ⟨front, leads, longest⟩
    · exact .inl ⟨leads, by rw [readLeading, leads], absent⟩
    · have reads := readLeading_of_leading? strict leads longest.isNumeral
      exact .inr ⟨front, leads, longest, reads, fun n spells => strict.rounds spells reads⟩
  · rw [readStrict?] at reads
    split at reads
    · cases reads
    · exact readLeading_of_numeral? strict reads

/-- A text that goes on after its numeral, behind what looks like an exponent. -/
theorem reads_longest_numeral_marked :
    IsStrict readWhole? ∧ leading? (Text.trimStart " -.5e+x".toList) = some "-.5".toList ∧
    IsLongest "-.5".toList (Text.trimStart " -.5e+x".toList) ∧
    read (readLeading readWhole? (Text.trimStart " -.5e+x".toList)) =
      .finite true (2 ^ 52) (-53) := by
  have leads : leading? (Text.trimStart " -.5e+x".toList) = some "-.5".toList := by decide +kernel
  obtain ⟨⟨none, -⟩ | ⟨front, some, longest, -⟩, -⟩ :=
    reads_longest_numeral isStrict_readWhole? " -.5e+x".toList
  · rw [leads] at none
    cases none
  · obtain rfl := Option.some.inj (leads.symm.trans some)
    exact ⟨isStrict_readWhole?, leads, longest, by decide +kernel⟩

end ValueMachine.Number
