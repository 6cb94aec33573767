import Vsys.Lib.Dict
import Vsys.Lib.Outcome
import Vsys.Lib.BigEndian

/-!
# Validation errors and exceptions

The code rejects an input in two ways: it returns a `ValidationError` on the left of an `Either`,
or an exception escapes it.  A `Result` is the outcome of such code, and its two kinds of failure
stay apart.
-/

namespace Vsys

open Lib

/-- A byte string. -/
abbrev ByteStr := List Byte

instance ByteStr.lawfulBEq : LawfulBEq ByteStr := inferInstanceAs (LawfulBEq (List Byte))

/-- The validation errors.  A signed object and an account are named by their bytes. -/
inductive ValidationError where
  | invalidAddress
  | invalidDataLength
  | invalidDataType
  | tooLongDbEntry (actualLength maxLength : Nat)
  | invalidUTF8String (field : String)
  | invalidProofType
  | invalidProofLength
  | invalidProofBytes
  | negativeAmount
  | insufficientFee
  | tooBigArray
  | invalidDbKey
  | overflowError
  | toSelf
  | invalidProcessedTransaction
  | unsupportedTransactionType
  | invalidContract
  | invalidContractAddress
  | invalidDataEntry
  | invalidFunctionIndex
  | contractDataTypeMismatch
  | contractInvalidStateVariable
  | contractStateVariableNotDefined
  | contractInvalidOPCData
  | contractUnsupportedOPC
  | contractInvalidSigner
  | contractInvalidCaller
  | contractInvalidFunction
  | contractInvalidTokenIndex
  | contractInvalidAmount
  | contractLocalVariableIndexOutOfRange
  | contractTokenBalanceInsufficient
  | contractTokenMaxExceeded
  | contractInvalidTokenInfo
  | contractUnsupportedWithdraw
  | contractUnsupportedDeposit
  | invalidSignature (s : ByteStr) (details : Option ByteStr)
  | aliasNotExists (a : String)
  | accountBalanceError (errs : Dict ByteStr String)
  | genericError (err : String)
  | orderValidationError (order : ByteStr) (err : String)
  | mistiming (err : String)
  | wrongFeeScale (errFeeScale : Int16)
  | wrongMintingReward (errReward : Int64)
  | invalidSlotId (errSlotId : Int)
  | transactionValidationError (cause : ValidationError) (tx : ByteStr)
  deriving DecidableEq

/-- The exceptions the modelled code can raise. -/
inductive Exception where
  | noSuchElement
  | indexOutOfBounds
  | illegalArgument
  | unsupportedOperation
  | arithmetic
  | matchError
  | nullPointer
  | exception (text : String)
  deriving DecidableEq

/-- Why a computation did not return a value. -/
inductive Fault where
  | left (e : ValidationError)
  | raised (e : Exception)
  deriving DecidableEq

/-- The text of an option. -/
def optionText : Option String → String
  | some text => s!"Some({text})"
  | none => "None"

/-- The outcome of code that returns an `Either[ValidationError, _]` or raises. -/
abbrev Result := Except Fault

/-- `Left(e)`. -/
def left {α : Type} (e : ValidationError) : Result α := .error (.left e)

/-- An exception that escapes. -/
def raise {α : Type} (e : Exception) : Result α := .error (.raised e)

/-- `Option.get`, `head` and their like: raises when there is no element. -/
def getOrRaise {α : Type} (e : Exception) : Option α → Result α
  | some a => .ok a
  | none => raise e

/-- `Either.toOption.get`: a value on the left raises. -/
def rightGet {α : Type} : Result α → Result α
  | .error (.left _) => raise .noSuchElement
  | r => r

/-- `Either.explicitGet`, and `Try.get` of code whose errors are all failures: a value on the left
is raised. -/
def explicitGet {α : Type} : Result α → Result α
  | .error (.left _) => raise (.exception "explicitGet")
  | r => r

/-- `Either.cond(p, (), e)`. -/
def cond (p : Prop) [Decidable p] (e : ValidationError) : Result Unit := ensure p (.left e)

@[simp]
theorem left_ne_ok {α : Type} {e : ValidationError} {a : α} : left e = .ok a ↔ False :=
  ⟨fun h => (nomatch h), False.elim⟩

@[simp]
theorem raise_ne_ok {α : Type} {e : Exception} {a : α} : raise e = .ok a ↔ False :=
  ⟨fun h => (nomatch h), False.elim⟩

@[simp]
theorem getOrRaise_eq_ok_iff {α : Type} {e : Exception} {o : Option α} {a : α} :
    getOrRaise e o = .ok a ↔ o = some a := by
  cases o <;> simp [getOrRaise]

@[simp]
theorem rightGet_eq_ok_iff {α : Type} {r : Result α} {a : α} :
    rightGet r = .ok a ↔ r = .ok a := by
  match r with
  | .ok b => rfl
  | .error (.left e) => simp [rightGet]
  | .error (.raised e) => simp [rightGet]

@[simp]
theorem explicitGet_eq_ok_iff {α : Type} {r : Result α} {a : α} :
    explicitGet r = .ok a ↔ r = .ok a := by
  match r with
  | .ok b => rfl
  | .error (.left e) => simp [explicitGet]
  | .error (.raised e) => simp [explicitGet]

@[simp]
theorem cond_eq_ok_iff {p : Prop} [Decidable p] {e : ValidationError} {u : Unit} :
    cond p e = .ok u ↔ p :=
  ensure_eq_ok_iff

/-- An error that is no exception. -/
def Fault.IsLeft (e : Fault) : Prop := ∃ v, e = .left v

theorem not_isLeft_of_explicitGet {α : Type} {r : Result α} {e : Fault}
    (h : explicitGet r = .error e) : ¬ e.IsLeft := by
  rintro ⟨v, rfl⟩
  match r with
  | .ok a => cases h
  | .error (.left _) => cases h
  | .error (.raised _) => cases h

theorem not_isLeft_of_getOrRaise {α : Type} {x : Exception} {o : Option α} {e : Fault}
    (h : getOrRaise x o = .error e) : ¬ e.IsLeft := by
  rintro ⟨v, rfl⟩
  cases o with
  | none => cases h
  | some a => cases h

/-- An exception escapes. -/
def Raises {α : Type} (r : Result α) : Prop := ∃ e, r = raise e

instance {α : Type} (r : Result α) : Decidable (Raises r) :=
  match r with
  | .ok _ => .isFalse fun h => nomatch h.choose_spec
  | .error (.left _) => .isFalse fun h => nomatch h.choose_spec
  | .error (.raised e) => .isTrue ⟨e, rfl⟩

namespace Raises

variable {α β : Type}

@[simp]
theorem ok {a : α} : ¬ Raises (.ok a : Result α) := fun h => nomatch h.choose_spec

@[simp]
theorem left {v : ValidationError} : ¬ Raises (Vsys.left v : Result α) :=
  fun h => nomatch h.choose_spec

@[simp]
theorem raise {e : Exception} : Raises (Vsys.raise e : Result α) := ⟨e, rfl⟩

@[simp]
theorem error_iff {α : Type} {f : Fault} :
    Raises (.error f : Result α) ↔ ∃ e, f = .raised e := by
  simp [Raises, Vsys.raise]

@[simp]
theorem pure_iff {α : Type} {a : α} : ¬ Raises (pure a : Result α) := Raises.ok

/-- A sequence raises in its first step or, after it, in its rest. -/
@[simp]
theorem bind_iff {r : Result α} {f : α → Result β} :
    Raises (r >>= f) ↔ Raises r ∨ ∃ a, r = .ok a ∧ Raises (f a) := by
  match r with
  | .ok a => simp
  | .error (.left v) => simp [Raises, Vsys.raise]
  | .error (.raised e) => simp [Raises, Vsys.raise]

@[simp]
theorem getOrRaise_iff {e : Exception} {o : Option α} :
    Raises (getOrRaise e o) ↔ o = none := by
  cases o with
  | none => exact ⟨fun _ => rfl, fun _ => ⟨e, rfl⟩⟩
  | some a => exact ⟨fun h => (nomatch h.choose_spec), fun h => (nomatch h)⟩

/-- What must be on the right raises when it is not. -/
theorem rightGet_iff {r : Result α} : Raises (rightGet r) ↔ ¬ ∃ a, r = .ok a := by
  match r with
  | .ok a => simp [rightGet]
  | .error (.left v) => simp [rightGet]
  | .error (.raised e) => simp [rightGet, Raises, Vsys.raise]

end Raises

end Vsys
