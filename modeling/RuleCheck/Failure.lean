import RuleCheck.Fault

/-!
# Failures

What can go wrong with expressions: one of them has a fault, or the file that holds them cannot be
read.  A file is read as the text that its bytes encode.
-/

namespace RuleCheck

/-- Why a file cannot be read: a refusal of the operating system, by its number, or bytes that are
no text. -/
inductive ReadFailure where
  | system (number : Nat) (description : Text)
  | notUtf8
deriving DecidableEq, Repr

def ReadFailure.notFound : ReadFailure := system 2 "No such file or directory".toList

def ReadFailure.message : ReadFailure → Text
  | system n d => "io error: ".toList ++ d ++ " (os error ".toList ++ Text.decimal n ++ [')']
  | notUtf8    => "io error: stream did not contain valid UTF-8".toList

/-- The text that the bytes encode.  A byte order mark is a character like any other. -/
def decodeText (bytes : ByteArray) : Except ReadFailure Text :=
  match String.fromUTF8? bytes with
  | some s => .ok s.toList
  | none   => .error .notUtf8

inductive Failure where
  | fault (f : Fault)
  | read (e : ReadFailure)
deriving DecidableEq, Repr

/-- A failure is described as its cause describes itself. -/
def Failure.message : Failure → Text
  | fault f => f.message
  | read e  => e.message

end RuleCheck
