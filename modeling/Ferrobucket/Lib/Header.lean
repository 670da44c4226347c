import Ferrobucket.Lib.Text
/-! Header values of HTTP, and the quoted strings in them, where a backslash stands before a byte
that is meant as it is. -/
namespace Header
open Text

/-- No control byte but the tab. -/
def isValueByte (b : UInt8) : Bool := b = 9 || (32 ≤ b && b ≠ 127)

def quote : UInt8 := 34

def backslash : UInt8 := 92

/-- A quoted string behind its opening quote, and what stands behind the closing one. -/
def quotedString : Bytes → Option (Bytes × Bytes)
  | [] => none
  | b :: rest =>
      if b = quote then some ([], rest)
      else if b = backslash then
        match rest with
        | [] => none
        | escaped :: more => (quotedString more).map fun found => (escaped :: found.1, found.2)
      else (quotedString rest).map fun found => (b :: found.1, found.2)

theorem quoted_quote (rest : Bytes) : quotedString (quote :: rest) = some ([], rest) := by
  rw [quotedString.eq_def]
  exact if_pos rfl

theorem quoted_escape (rest : Bytes) : quotedString (backslash :: rest) =
    match rest with
    | [] => none
    | escaped :: more => (quotedString more).map fun found => (escaped :: found.1, found.2) := by
  rw [quotedString.eq_def]
  exact (if_neg (by decide)).trans (if_pos rfl)

theorem quoted_other {b : UInt8} (ordinary : b ≠ quote) (plain : b ≠ backslash) (rest : Bytes) :
    quotedString (b :: rest) = (quotedString rest).map fun found => (b :: found.1, found.2) := by
  rw [quotedString.eq_def]
  exact (if_neg ordinary).trans (if_neg plain)

/-- The byte means itself between quotes. -/
def Literal (b : UInt8) : Prop := b ≠ quote ∧ b ≠ backslash

theorem quoted_literal {text : Bytes} (literal : ∀ b ∈ text, Literal b) (rest : Bytes) :
    quotedString (text ++ quote :: rest) = some (text, rest) := by
  induction text with
  | nil => exact quoted_quote rest
  | cons b text ih =>
      obtain ⟨⟨ordinary, plain⟩, others⟩ := List.forall_mem_cons.mp literal
      rw [List.cons_append, quoted_other ordinary plain, ih others]
      rfl

/-- A quote ends the string early and a backslash is dropped from it. -/
theorem quoted_shorter {text value rest : Bytes}
    (read : quotedString (text ++ [quote]) = some (value, rest)) :
    value.length ≤ text.length ∧ (value.length = text.length → ∀ b ∈ text, Literal b) := by
  induction text using quotedString.induct generalizing value with
  | case1 =>
      cases read
      exact ⟨le_rfl, fun _ _ member => nomatch member⟩
  | case2 text =>
      rw [List.cons_append, quoted_quote] at read
      cases read
      exact ⟨Nat.zero_le _, fun same => nomatch same⟩
  | case3 other =>
      -- The closing quote is the byte that the backslash stands before.
      rw [List.cons_append, quoted_escape] at read
      cases read
  | case4 other escaped text ih =>
      rw [List.cons_append, quoted_escape] at read
      obtain ⟨⟨inner, left⟩, found, same⟩ := Option.map_eq_some_iff.mp read
      cases same
      have shorter := (ih found).1
      simp only [List.length_cons]
      exact ⟨by omega, fun same => by omega⟩
  | case5 b text ordinary plain ih =>
      rw [List.cons_append, quoted_other ordinary plain] at read
      obtain ⟨⟨inner, left⟩, found, same⟩ := Option.map_eq_some_iff.mp read
      cases same
      obtain ⟨shorter, literal⟩ := ih found
      refine ⟨Nat.succ_le_succ shorter, fun same => ?_⟩
      exact List.forall_mem_cons.mpr ⟨⟨ordinary, plain⟩, literal (Nat.succ.inj same)⟩

/-- A text between quotes is read back just if none of its bytes is special. -/
theorem quoted_iff (text : Bytes) :
    (∃ rest, quotedString (text ++ [quote]) = some (text, rest)) ↔ ∀ b ∈ text, Literal b := by
  constructor
  · rintro ⟨rest, read⟩
    exact (quoted_shorter read).2 rfl
  · intro literal
    exact ⟨[], quoted_literal literal []⟩

end Header
