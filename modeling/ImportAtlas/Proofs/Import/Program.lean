import ImportAtlas.Proofs.Import.Emission

/-!
# Programs and their imports

A program is a tree of blocks: each block has an origin and statements, and a
function definition holds the block of the function. It is assembled to a tree of
units of the same shape. What it imports is read off the program itself here,
statement by statement, without the assembler: a statement stands on the largest
line started before it in its block, and blocks come in the order in which their
definitions are met.
-/

namespace ImportAtlas

/-- The style a level stands for: implicit, absolute, or so many packages up. -/
def ImportStyle.ofLevel (level : Int64) : ImportStyle :=
  if level = -1 then .implicit
  else if level = 0 then .absolute
  else .relative (UInt32.ofNat level.toInt.toNat)

def dots (level : Int64) : String :=
  String.ofList (List.replicate level.toInt.toNat '.')

inductive Origin where
  | module (filename : String)
  | function (name filename : String) (firstLine : UInt32)

def Origin.assembler : Origin → Assembler
  | .module filename => .module filename
  | .function name filename firstLine => .function name filename firstLine

mutual

inductive Statement where
  /-- What follows stands on this line. -/
  | line (line : UInt32)
  | store (name : String)
  | assignNone (name : String)
  | importModule (dotted : String) (boundAs : Option String)
  | importFrom (module : String) (names : List String) (level : Int64)
  | importStar (module : String) (level : Int64)
  | functionDef (body : Block)

inductive Block where
  | mk (origin : Origin) (statements : List Statement)

end

mutual

def Statement.step (format : Format) : Statement → Assembler.Step
  | .line line => .line line
  | .store name => .store name
  | .assignNone name => .assignNone name
  | .importModule dotted boundAs => .importModule dotted boundAs
  | .importFrom module names level => .importFrom module names level
  | .importStar module level => .importStar module level
  | .functionDef body => .functionDef (Block.assemble format body)

def Statement.steps (format : Format) : List Statement → List Assembler.Step
  | [] => []
  | statement :: statements =>
    Statement.step format statement :: Statement.steps format statements

def Block.assemble (format : Format) : Block → CodeUnit
  | .mk origin statements =>
    (origin.assembler.run (.format format :: Statement.steps format statements)).finish

end

theorem Statement.steps_eq_map (format : Format) (statements : List Statement) :
    Statement.steps format statements = statements.map (Statement.step format) := by
  induction statements with
  | nil => rfl
  | cons statement statements ih => rw [Statement.steps, ih, List.map_cons]

/-! ## The imports of a program -/

namespace Statement

def nextLine (line : UInt32) : Statement → UInt32
  | .line next => max line next
  | _ => line

/-- The record of a statement on `line`, if it is an import. -/
def record? (source : Option SourceText) (line : UInt32) : Statement → Option ImportRecord
  | .importModule dotted _ => some (importRecord source line .implicit dotted none)
  | .importFrom module names level =>
    some (importRecord source line (.ofLevel level) (dots level ++ module)
      (some (names.filter (· != "*"))))
  | .importStar module level =>
    some (importRecord source line (.ofLevel level) (dots level ++ module) (some []))
  | _ => none

def records (source : Option SourceText) : (first : UInt32) → List Statement → List ImportRecord
  | _, [] => []
  | first, statement :: statements =>
    (statement.record? source first).toList ++ records source (statement.nextLine first) statements

theorem records_append (source : Option SourceText) (first : UInt32)
    (statements others : List Statement) :
    records source first (statements ++ others)
      = records source first statements
        ++ records source (statements.foldl nextLine first) others := by
  induction statements generalizing first with
  | nil => rfl
  | cons statement statements ih =>
    rw [List.cons_append, records, ih, records, List.append_assoc, List.foldl_cons]

theorem line_of_record? {source : Option SourceText} {line : UInt32} {statement : Statement}
    {record : ImportRecord} (h : statement.record? source line = some record) :
    record.lineNumber = line ∧ record.sourceLine = source.bind (·.line? line) := by
  cases statement with
  | importModule | importFrom | importStar =>
    obtain rfl := Option.some.inj h
    exact ⟨rfl, rfl⟩
  | _ => cases h

def level? : Statement → Option Int64
  | .importFrom _ _ level => some level
  | .importStar _ level => some level
  | _ => none

def body? : Statement → Option Block
  | .functionDef body => some body
  | _ => none

end Statement

namespace Block

def origin : Block → Origin
  | .mk origin _ => origin

def statements : Block → List Statement
  | .mk _ statements => statements

def records (source : Option SourceText) (block : Block) : List ImportRecord :=
  Statement.records source block.origin.assembler.firstLine block.statements

def bodies (format : Format) (block : Block) : List CodeUnit :=
  (block.statements.filterMap Statement.body?).map (assemble format)

end Block

mutual

/-- A block and all blocks inside of it, each before those that its statements define. -/
def Block.blocks : Block → List Block
  | .mk origin statements => .mk origin statements :: Statement.blocks statements

def Statement.blocks : List Statement → List Block
  | [] => []
  | statement :: statements => Statement.ownBlocks statement ++ Statement.blocks statements

def Statement.ownBlocks : Statement → List Block
  | .functionDef body => Block.blocks body
  | _ => []

end

theorem Statement.blocks_eq (statements : List Statement) :
    Statement.blocks statements = (statements.filterMap Statement.body?).flatMap Block.blocks := by
  induction statements with
  | nil => rfl
  | cons statement statements ih =>
    rw [Statement.blocks, ih]
    cases statement <;> rfl

/-- What the format can hold of a block: levels, table indices, and bodies that do not coincide. -/
structure Block.Admissible (format : Format) (block : Block) : Prop where
  level : ∀ level ∈ block.statements.filterMap Statement.level?,
    -1 ≤ level.toInt ∧ level.toInt < 0x100000000
  consts : (block.assemble format).consts.length ≤ 0x10000
  names : (block.assemble format).names.length ≤ 0x10000
  bodies : (block.bodies format).Nodup

/-- The operands of the statement, if it is an import, can point to what it imports. -/
def Statement.Addressed (unit : CodeUnit) : Statement → Prop
  | .importModule dotted _ => unit.Addresses (-1) .none dotted
  | .importFrom module names level => unit.Addresses level (.tuple (names.map .str)) module
  | .importStar module level => unit.Addresses level (.tuple [.str "*"]) module
  | _ => True

/-- What a scan needs of a block: its tables may be of any size, as long as the operands of its
imports can point to what they import. -/
structure Block.Addressable (format : Format) (block : Block) : Prop where
  level : ∀ level ∈ block.statements.filterMap Statement.level?,
    -1 ≤ level.toInt ∧ level.toInt < 0x100000000
  addressed : ∀ statement ∈ block.statements, statement.Addressed (block.assemble format)
  bodies : (block.bodies format).Nodup

theorem Block.Admissible.addressable {format : Format} {block : Block}
    (h : block.Admissible format) : block.Addressable format where
  level := h.level
  addressed statement _ := by
    have hunit (level : Int64) (fromlist : Constant) (module : String) :
        (block.assemble format).Addresses level fromlist module :=
      ⟨.of_length_le h.consts _, .of_length_le h.consts _, .of_length_le h.names _⟩
    cases statement with
    | importModule => exact hunit _ _ _
    | importFrom => exact hunit _ _ _
    | importStar => exact hunit _ _ _
    | _ => trivial
  bodies := h.bodies

end ImportAtlas
