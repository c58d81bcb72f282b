import XbowPerso.Lib.PyText

/-!
# Errors and bounded identifiers

The queue, the storage and the API pass every identifier through `_bounded_identifier` before they use it. What it returns is an
`Ident`: a stripped text that is not blank, not too long, and free of control characters.
-/

namespace XbowPerso

open PyText

/-- The exceptions that the modelled code raises by itself, with their texts. -/
inductive PyError where
  | valueError (message : String)
  | keyError (key : String)
  | overflowError (message : String)
  | typeError (message : String)
  | runtimeError (message : String)
  | campaignConflictError (message : String)
  | integrityError
  | jsonDecodeError
  deriving DecidableEq, Repr

/-- A character that no identifier holds: below the space, the space itself, or the delete character. -/
def isInvalidChar (c : Char) : Bool := c.toNat < 33 || c.toNat == 127

/-- The longest identifier. -/
def identifierLimit : Nat := 200

/-- A normalised identifier, as `_bounded_identifier` returns it. -/
structure Ident where
  text : String
  stripped : strip text = text
  notBlank : text ≠ ""
  bounded : text.length ≤ identifierLimit
  valid : text.toList.any isInvalidChar = false
  deriving DecidableEq

namespace Ident

theorem text_injective : Function.Injective Ident.text := by
  rintro ⟨a, _, _, _, _⟩ ⟨b, _, _, _, _⟩ h
  cases h
  rfl

instance : LinearOrder Ident := LinearOrder.lift' Ident.text text_injective

end Ident

/-! ## The check -/

/-- The check that the queue and the storage make with the same lines but for the text about a blank value: the stripped value, or
the error that names the field it checks. -/
def identifierOf (blank value name : String) : Except PyError Ident :=
  if hb : strip value = "" then .error (.valueError (name ++ blank))
  else if hl : identifierLimit < (strip value).length then .error (.valueError (name ++ " too long"))
  else if hv : (strip value).toList.any isInvalidChar = true then
    .error (.valueError (name ++ " contains invalid characters"))
  else .ok ⟨strip value, strip_strip value, hb, Nat.le_of_not_lt hl, by simpa using hv⟩

/-- `_bounded_identifier(value, name)` of the queue. -/
def boundedIdentifier (value name : String) : Except PyError Ident := identifierOf " must not be blank" value name

/-- `_bounded_identifier(value, name)` of the storage. -/
def storageIdentifier (value name : String) : Except PyError Ident := identifierOf " required" value name

/-- What an identifier reads as is the identifier. -/
theorem identifierOf_text (blank : String) (i : Ident) (name : String) : identifierOf blank i.text name = .ok i := by
  unfold identifierOf
  have hs := i.stripped
  rw [dif_neg (by rw [hs]; exact i.notBlank), dif_neg (by rw [hs]; exact Nat.not_lt.mpr i.bounded),
    dif_neg (by rw [hs, i.valid]; exact Bool.false_ne_true)]
  congr 1
  exact Ident.text_injective hs

theorem boundedIdentifier_text (i : Ident) (name : String) : boundedIdentifier i.text name = .ok i :=
  identifierOf_text _ i name

/-- What the check accepts reads as the stripped value. -/
theorem text_of_identifierOf {blank value name : String} {i : Ident} (h : identifierOf blank value name = .ok i) :
    i.text = strip value := by
  unfold identifierOf at h
  split at h
  · cases h
  split at h
  · cases h
  split at h
  · cases h
  cases h
  rfl

end XbowPerso
