import TernaryMachine.Instruction
import TernaryMachine.Json
import TernaryMachine.Machine

/-!
How the values of the machine are exchanged as JSON. A record is an object with its fields by name
or an array with them in order. Unknown members of an object are ignored, a repeated field or an
array that is too long is refused. A named value is a string, or an object whose only member has
that name and the value null.
-/

set_option autoImplicit false
set_option relaxedAutoImplicit false

namespace TernaryMachine.Exchange

/-- The values of the named fields of a record, none where a field is missing. -/
def fields? (names : List String) : Json → Option (List (Option Json))
  | .array items =>
    if items.length ≤ names.length then
      some (items.map some ++ List.replicate (names.length - items.length) none)
    else none
  | .object members =>
    if members.any fun m => m.1.isNone then none
    else names.mapM fun name =>
      match members.filter fun m => m.1 == some name with
      | [] => some none
      | [m] => some (some m.2)
      | _ => none
  | _ => none

def signed32? : Json → Option Int
  | .integer n => Signed32.check? n
  | _ => none

def unsigned64? : Json → Option Nat
  | .integer n => if 0 ≤ n ∧ n < UInt64.size then some n.toNat else none
  | _ => none

def boolean? : Json → Option Bool
  | .boolean b => some b
  | _ => none

def tryte? : Json → Option Tryte
  | .integer n => Tryte.ofInt? n
  | _ => none

def name? : Json → Option String
  | .string s => some s
  | .object [(some name, .null)] => some name
  | _ => none

def flag? (v : Json) : Option Flag := do
  match (← name? v).toList with
  | [c] => Flag.ofLetter? c
  | _ => none

def trit? (v : Json) : Option Trit := do
  let name ← name? v
  Trit.all.find? fun t => t.name == name

/-- Machine options; a missing field has its default. -/
def options? (v : Json) : Option MachineOptions := do
  match ← fields? ["tryte_count", "dnop_traps"] v with
  | [count?, traps?] =>
    let standard : MachineOptions := {}
    let count ← match count? with
      | some c => unsigned64? c
      | none => some standard.tryteCount
    let traps ← match traps? with
      | some t => boolean? t
      | none => some standard.dnopTraps
    return ⟨count, traps⟩
  | _ => none

def program? (v : Json) : Option Program := do
  match ← fields? ["origin", "code"] v with
  | [some origin, some (.array code)] => return ⟨← signed32? origin, ← code.mapM tryte?⟩
  | _ => none

def flags? (v : Json) : Option Flags := do
  match ← fields? ["value"] v with
  | [some value] => return ⟨← signed32? value⟩
  | _ => none

def registers? (v : Json) : Option Registers := do
  match ← fields? ["pc", "accum", "index", "yindex", "stackptr", "flags"] v with
  | [some pc, some accum, some index, some yindex, some stackptr, some flags] =>
    return ⟨← signed32? pc, ← tryte? accum, ← tryte? index, ← tryte? yindex,
      ← signed32? stackptr, ← flags? flags⟩
  | _ => none

/-- An instruction, an object whose only member names the family. -/
def instruction? : Json → Option Instruction
  | .object [(some "Alu", v)] => do
    match ← fields? ["op", "mode"] v with
    | [some op, some mode] =>
      return .alu (← AluOp.ofName? (← name? op)) (← AddressMode.ofName? (← name? mode))
    | _ => none
  | .object [(some "Branch", v)] => do
    match ← fields? ["flag", "direction", "compare"] v with
    | [some flag, some direction, some compare] =>
      return .branch (← flag? flag) (← Comparison.ofName? (← name? direction)) (← trit? compare)
    | _ => none
  | .object [(some "Extended", v)] => do
    match ← fields? ["op"] v with
    | [some op] => return .extended (← ExtendedOp.ofName? (← name? op))
    | _ => none
  | _ => none

def record (members : List (String × Json)) : Json :=
  .object (members.map fun m => (some m.1, m.2))

def ofTryte (t : Tryte) : Json := .integer t.val

def ofOptions (o : MachineOptions) : Json :=
  record [("tryte_count", .integer o.tryteCount), ("dnop_traps", .boolean o.dnopTraps)]

def ofProgram (p : Program) : Json :=
  record [("origin", .integer p.origin), ("code", .array (p.code.map ofTryte))]

def ofFlags (s : Flags) : Json := record [("value", .integer s.packed)]

def ofRegisters (r : Registers) : Json :=
  record [("pc", .integer r.pc), ("accum", ofTryte r.accumulator), ("index", ofTryte r.indexX),
    ("yindex", ofTryte r.indexY), ("stackptr", .integer r.stackPointer),
    ("flags", ofFlags r.flags)]

def ofInstruction : Instruction → Json
  | .alu op mode =>
    record [("Alu", record [("op", .string op.name), ("mode", .string mode.name)])]
  | .branch flag comparison digit =>
    record [("Branch", record [("flag", .string (String.singleton flag.letter)),
      ("direction", .string comparison.name), ("compare", .string digit.name)])]
  | .extended op => record [("Extended", record [("op", .string op.name)])]

end TernaryMachine.Exchange
