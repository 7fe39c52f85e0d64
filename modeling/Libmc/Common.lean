import Mathlib.Data.List.Basic
import Mathlib.Data.List.TakeWhile
import Mathlib.Tactic

/-!
# Types shared by the whole client

Bytes, the result codes of `Export.h` and the states of the reply parser of `Common.h`.
-/

namespace Libmc

/-- A byte string. -/
abbrev Bytes := List UInt8

def ascii (s : String) : Bytes := s.toList.map fun c => UInt8.ofNat c.toNat

/-- `err_code_t`. -/
inductive ErrCode
  | sendErr
  | recvErr
  | connPollErr
  | pollTimeoutErr
  | pollErr
  | mcServerErr
  | programmingErr
  | invalidKeyErr
  | incompleteBufferErr
  | ok
  deriving DecidableEq, Repr

/-- `enum message_result_type`. -/
inductive MessageResultType
  | libmcInvalid
  | exists_
  | ok
  | stored
  | notStored
  | notFound
  | deleted
  | touched
  deriving DecidableEq, Repr

/-- `parser_state_t`. -/
inductive ParserState
  | start
  | end_
  | error
  | getStart
  | getKey
  | getFlags
  | getBytes
  | getCas
  | getValueRemaining
  | verStart
  | statStart
  | incrDecrStart
  | incrDecrRemaining
  deriving DecidableEq, Repr

/-- `IS_END_STATE`. -/
def ParserState.isEndState (st : ParserState) : Bool := st = .end_ ∨ st = .error

/-- `ParserMode`. -/
inductive ParserMode
  | undefined
  | endState
  | counting
  deriving DecidableEq, Repr

/-- `0` … `9`. -/
def isDigit (c : UInt8) : Bool := 48 ≤ c ∧ c ≤ 57

/-- `\r`. -/
def cr : UInt8 := 13

/-- `\n`. -/
def lf : UInt8 := 10

def space : UInt8 := 32

/-- `kCRLF`. -/
def crlf : Bytes := [cr, lf]

theorem isDigit_lf : isDigit lf = false := by decide
theorem isDigit_cr : isDigit cr = false := by decide
theorem isDigit_space : isDigit space = false := by decide

/-- The number a digit string stands for, modulo `2 ^ 64` after each digit, from `v` on. -/
def foldDigits (v : ℕ) (ds : Bytes) : ℕ :=
  ds.foldl (fun v c => (v * 10 + (c.toNat - 48)) % 2 ^ 64) v

/-- A length in a C `int` of 32 bits. -/
def cInt (n : ℕ) : ℤ := (n : ℤ).bmod (2 ^ 32)

theorem cInt_of_lt {n : ℕ} (h : n < 2 ^ 31) : cInt n = n := by
  unfold cInt Int.bmod
  dsimp only
  rw [if_pos] <;> omega

theorem cInt_cases (n : ℕ) : n < 2 ^ 31 ∧ cInt n = n ∨ 2 ^ 31 ≤ n ∧ cInt n + 2 ^ 32 ≤ n := by
  rcases Nat.lt_or_ge n (2 ^ 31) with h | h
  · exact .inl ⟨h, cInt_of_lt h⟩
  · refine .inr ⟨h, ?_⟩
    unfold cInt Int.bmod
    dsimp only
    split_ifs <;> omega

/-- `MC_MAX_KEY_LENGTH`. -/
def maxKeyLength : ℕ := 250

/-- `utility::isValidKey`. -/
def isValidKey (key : Bytes) : Bool :=
  key.length ≤ maxKeyLength && key.all fun c => c ≠ space && c ≠ cr && c ≠ lf && c ≠ 0

end Libmc
