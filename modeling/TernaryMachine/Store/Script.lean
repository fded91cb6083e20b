import TernaryMachine.Store

/-!
Peripherals that follow a script: their answers to reads are a list fixed in advance, one answer a
call, and nothing is answered after its end.
-/

set_option autoImplicit false
set_option relaxedAutoImplicit false

namespace TernaryMachine

def TrapCall.isReadIn (name : String) : TrapCall → Bool
  | .read range _ _ => range == name
  | .write .. => false

def Store.readsIn (name : String) (calls : List TrapCall) : Nat :=
  calls.countP (TrapCall.isReadIn name)

/-- A range to be registered under `name` in the store `s`, which answers reads from a list or, if
there is no list, does not hear of them. -/
def MemoryMap.scripted (s : Store) (name : String) (first last : Int)
    (answers : Option (List (Option Tryte))) (onWrite : Bool) : MemoryMap :=
  let before := Store.readsIn name s.calls
  { first, last, onWrite
    onRead := answers.map fun script calls _ =>
      (script[Store.readsIn name calls - before]?).join }

end TernaryMachine
