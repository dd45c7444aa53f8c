import ImportAtlas.Container.Basic
import ImportAtlas.Proofs.Container.Agreement

/-!
# Loading strings in any spelling

A container loads to the same unit whichever way its strings are spelled, and a
reference that comes too early makes it fail. Only the position at which a failure
is reported tells one spelling from another, as the last theorem shows.
-/

namespace ImportAtlas.Container

open Reader Descent

open Writer (countLimit)

variable {α β : Type}

def container (header : Header) (pieces : List Piece) (tail : Bytes) : Bytes :=
  header.render ++ (write pieces ++ tail)

def unplaced : Error → Error
  | .malformed _ problem => .malformed 0 problem
  | error => error

def unitOf : Constant → Except ContainerProblem CodeUnit
  | .code unit => .ok unit
  | other => .error (.expectedCode other.kind)

section Load

variable {header : Header} {format : Format} {bytes : Bytes}

theorem load_of_mismatch (hmagic : header.magic ≠ format.magic) :
    load (header.render ++ bytes) format =
      .error (.unsupportedFormat (.mismatch format header.magic)) := by
  unfold load
  rw [parse_render]
  simp only [bind, Except.bind, Format.check, if_neg hmagic]

theorem load_of_match (hmagic : header.magic = format.magic) :
    load (header.render ++ bytes) format =
      match (objectAt format.magic 0).read ⟨bytes, headerSize, #[]⟩ with
      | .error error => .error error
      | .ok (.code unit, _) => .ok unit
      | .ok (other, _) => .error (.malformed headerSize (.expectedCode other.kind)) := by
  have hdrop : (header.render ++ bytes).drop headerSize = bytes :=
    List.drop_left' (length_render _)
  unfold load
  rw [parse_render, hdrop]
  simp only [bind, Except.bind, Format.check, if_true, object_eq_objectAt, hmagic]
  cases (objectAt format.magic 0).read ⟨bytes, headerSize, #[]⟩ with
  | error error => rfl
  | ok result =>
    obtain ⟨value, next⟩ := result
    cases value <;> rfl

theorem load_of_error {error : Error} (hmagic : header.magic = format.magic)
    (hread : (objectAt format.magic 0).read ⟨bytes, headerSize, #[]⟩ = .error error) :
    load (header.render ++ bytes) format = .error error := by
  rw [load_of_match hmagic, hread]

/-- What is loaded, apart from positions, depends only on how the read of the object ends. -/
theorem unplaced_load_of_ends {outcome : Except ContainerProblem Constant} {next : Stream}
    (hmagic : header.magic = format.magic)
    (hends : Ends ((objectAt format.magic 0).read ⟨bytes, headerSize, #[]⟩) outcome next) :
    (load (header.render ++ bytes) format).mapError unplaced =
      (outcome >>= unitOf).mapError (Error.malformed 0) := by
  cases outcome with
  | error problem =>
    obtain ⟨position, hread⟩ := hends
    rw [load_of_error hmagic hread]
    rfl
  | ok value =>
    have hread : (objectAt format.magic 0).read ⟨bytes, headerSize, #[]⟩ = .ok (value, next) :=
      hends
    rw [load_of_match hmagic, hread]
    cases value <;> rfl

end Load

/--
A container loads to the same unit in every spelling of its strings, and if it
does not load it fails with the same error, up to the position of the byte. A
reference by a number that has not been given yet makes it fail, with that problem
unless the encoding with all strings written out fails with the same problem.
-/
theorem load_respelled {pieces : List Piece} (hencoding : Encoding pieces) (header : Header)
    (format : Format) (tail : Bytes) :
    (AllResolve #[] (spellings pieces) →
      (load (container header pieces tail) format).mapError unplaced =
        (load (container header (inlined pieces) tail) format).mapError unplaced) ∧
    (∀ index, FirstDangles index #[] (spellings pieces) → header.magic = format.magic →
      ∃ position problem,
        load (container header pieces tail) format = .error (.malformed position problem) ∧
        (Error.malformed position problem).code = "MARSHAL_ERROR" ∧
        (problem = .unknownReference index ∨
          ∃ place, load (container header (inlined pieces) tail) format =
            .error (.malformed place problem))) := by
  obtain ⟨outcome, hagrees⟩ := hencoding.indifferent format.magic 0
  have hinline := hagrees.inline tail headerSize #[]
  constructor
  · intro hresolve
    by_cases hmagic : header.magic = format.magic
    · have hchosen := hagrees.resolved tail headerSize #[] hresolve
      rw [container, container, unplaced_load_of_ends hmagic hchosen,
        unplaced_load_of_ends hmagic hinline]
    · rw [container, container, load_of_mismatch hmagic, load_of_mismatch hmagic]
  · intro index hdangles hmagic
    obtain ⟨position, problem, hread, hproblem⟩ :=
      hagrees.dangling index tail headerSize #[] hdangles
    refine ⟨position, problem, load_of_error hmagic hread, rfl, ?_⟩
    rcases hproblem with hunknown | rfl
    · exact .inl hunknown
    · obtain ⟨place, hplace⟩ := hinline
      exact .inr ⟨place, load_of_error hmagic hplace⟩

/-- A module whose constants share a string with its names: the name of the unit is the string
with this number in the table. -/
def sharingParts (index : Nat) : CodeParts where
  code := .interned [0x53]
  consts := sequencePieces .tuple
    [[.string (.interned [0x6f, 0x73])], [.string (.reference 1 [0x6f, 0x73])]]
  names := sequencePieces .tuple [[.string (.reference 1 [0x6f, 0x73])]]
  varnames := sequencePieces .tuple []
  freevars := sequencePieces .tuple []
  cellvars := sequencePieces .tuple []
  filename := .inline [0x6d]
  name := .reference index [0x6f, 0x73]
  firstLine := 1
  lnotab := .reference 0 [0x53]

def sharing (index : Nat) : List Piece :=
  .fixed [Tag.code.toByte] :: (sharingParts index).pieces

theorem encoding_empty : Encoding (sequencePieces .tuple []) :=
  .sequence .tuple (by decide) (by simp)

theorem encoding_sharing {index : Nat} (hindex : index < countLimit) :
    Encoding (sharing index) := by
  have hinterned : Encoding [.string (.interned [0x6f, 0x73])] := .string (by decide)
  have hreference : Encoding [.string (.reference 1 [0x6f, 0x73])] := .string (by decide)
  apply Encoding.code
  · simp only [CodeParts.strings, sharingParts, List.forall_mem_cons]
    exact ⟨by decide, by decide, ⟨by decide, hindex⟩, by decide, by simp⟩
  · simp only [CodeParts.tables, sharingParts, List.forall_mem_cons]
    refine ⟨.sequence .tuple (by decide) ?_, .sequence .tuple (by decide) ?_, encoding_empty,
      encoding_empty, encoding_empty, by simp⟩
    · simp only [List.forall_mem_cons]
      exact ⟨hinterned, hreference, by simp⟩
    · simp only [List.forall_mem_cons]
      exact ⟨hreference, by simp⟩

/-- With number 1 the name is the shared string, and number 2 has not been given. -/
theorem load_respelled_sharing :
    Encoding (sharing 1) ∧ AllResolve #[] (spellings (sharing 1)) ∧
    (load (container ⟨62211, 7⟩ (sharing 1) [0]) .v27).isOk = true ∧
    (load (container ⟨62211, 7⟩ (sharing 1) [0]) .v27).mapError unplaced =
      (load (container ⟨62211, 7⟩ (inlined (sharing 1)) [0]) .v27).mapError unplaced ∧
    Encoding (sharing 2) ∧ FirstDangles 2 #[] (spellings (sharing 2)) ∧
    ∃ position problem,
      load (container ⟨62211, 7⟩ (sharing 2) [0]) .v27 = .error (.malformed position problem) ∧
      (Error.malformed position problem).code = "MARSHAL_ERROR" ∧
      (problem = .unknownReference 2 ∨
        ∃ place, load (container ⟨62211, 7⟩ (inlined (sharing 2)) [0]) .v27 =
          .error (.malformed place problem)) := by
  have hgiven : Encoding (sharing 1) := encoding_sharing (by decide)
  have hmissing : Encoding (sharing 2) := encoding_sharing (by decide)
  have hresolve : AllResolve #[] (spellings (sharing 1)) := by
    simp [sharing, sharingParts, CodeParts.pieces, CodeParts.head, CodeParts.tail, sequencePieces,
      spellings, Piece.spellings, AllResolve, Spelling.Resolves, Spelling.enter]
  have hdangles : FirstDangles 2 #[] (spellings (sharing 2)) := by
    simp [sharing, sharingParts, CodeParts.pieces, CodeParts.head, CodeParts.tail, sequencePieces,
      spellings, Piece.spellings, FirstDangles, Spelling.Dangles, Spelling.Resolves, Spelling.enter]
  exact ⟨hgiven, hresolve, by decide +kernel,
    (load_respelled hgiven ⟨62211, 7⟩ .v27 [0]).1 hresolve, hmissing, hdangles,
    (load_respelled hmissing ⟨62211, 7⟩ .v27 [0]).2 2 hdangles rfl⟩

/-! ## Where a failure is reported -/

/-- Standing before `bytes` with this table, the read fails so many bytes further. -/
def FailsAfter (reader : Reader α) (bytes : Bytes) (table : Array Bytes) (count : Nat)
    (problem : ContainerProblem) : Prop :=
  ∀ tail position, reader ⟨bytes ++ tail, position, table⟩ =
    .error (.malformed (position + count) problem)

namespace FailsAfter

variable {first : Reader α} {second : α → Reader β} {front back : Bytes} {table : Array Bytes}
  {count : Nat} {problem : ContainerProblem}

theorem bind (hfirst : FailsAfter first front table count problem) :
    FailsAfter (first >>= second) front table count problem := by
  intro tail position
  exact bind_of_error (hfirst tail position)

theorem append (hfirst : FailsAfter first front table count problem) (back : Bytes) :
    FailsAfter first (front ++ back) table count problem := by
  intro tail position
  rw [List.append_assoc]
  exact hfirst (back ++ tail) position

theorem bind_ok {value : α} {next : Array Bytes}
    (hfirst : ∀ tail position, first ⟨front ++ tail, position, table⟩ =
      .ok (value, ⟨tail, position + front.length, next⟩))
    (hsecond : FailsAfter (second value) back next count problem) :
    FailsAfter (first >>= second) (front ++ back) table (front.length + count) problem := by
  intro tail position
  rw [List.append_assoc, bind_of_ok (hfirst (back ++ tail) position), hsecond, Nat.add_assoc]

theorem bind_reads {value : α} (hfirst : Reads first front value)
    (hsecond : FailsAfter (second value) back table count problem) :
    FailsAfter (first >>= second) (front ++ back) table (front.length + count) problem :=
  bind_ok (fun tail position => hfirst tail position table) hsecond

theorem level {marker : UInt16} {member : Consumer Constant} {tag : Tag} {bytes : Bytes}
    (h : FailsAfter (body marker member tag) bytes table count problem) :
    FailsAfter (Descent.level marker member).read ([tag.toByte] ++ bytes) table (1 + count)
      problem := by
  apply bind_reads (Reads.byte tag.toByte)
  rw [Tag.ofByte?_toByte]
  exact h

theorem members {member : Consumer Constant} {items : Nat}
    (h : FailsAfter member.read front table count problem) :
    FailsAfter (Descent.members member (items + 1)) front table count problem :=
  h.bind

theorem members_ok {member : Consumer Constant} {items : Nat} {value : Constant}
    {next : Array Bytes}
    (hfirst : ∀ tail position, member.read ⟨front ++ tail, position, table⟩ =
      .ok (value, ⟨tail, position + front.length, next⟩))
    (hrest : FailsAfter (Descent.members member items) back next count problem) :
    FailsAfter (Descent.members member (items + 1)) (front ++ back) table (front.length + count)
      problem :=
  bind_ok hfirst hrest.bind

theorem sequence {marker : UInt16} {member : Consumer Constant} {kind : SequenceKind}
    {bytes : Bytes} {items : Nat} (hitems : items < countLimit)
    (h : FailsAfter (Descent.members member items) bytes table count problem) :
    FailsAfter (body marker member (.sequence kind)) (Word.encode 4 items ++ bytes) table
      (4 + count) problem :=
  bind_reads (Reads.length hitems) h.bind

end FailsAfter

def nest : Nat → List Piece
  | 0 => [.fixed [Tag.none.toByte], .fixed []]
  | count + 1 => sequencePieces .tuple [nest count]

theorem encoding_nest (count : Nat) : Encoding (nest count) := by
  induction count with
  | zero => exact .plain .none
  | succ count ih =>
    have hone : 1 < countLimit := by decide
    exact .sequence .tuple hone (by simpa using ih)

theorem spellings_nest (count : Nat) : spellings (nest count) = [] := by
  induction count with
  | zero => rfl
  | succ count ih =>
    show spellings ([nest count].flatten) = []
    rw [List.flatten_singleton, ih]

theorem inlined_nest (count : Nat) : inlined (nest count) = nest count := by
  induction count with
  | zero => rfl
  | succ count ih =>
    show .fixed _ :: .fixed _ :: inlined ([nest count].flatten) = _
    rw [List.flatten_singleton, ih, nest, sequencePieces, List.flatten_singleton]

theorem write_nest_succ (count : Nat) : write (nest (count + 1)) =
    [(Tag.sequence .tuple).toByte] ++ (Word.encode 4 1 ++ write (nest count)) := by
  simp [nest, sequencePieces, write, Piece.bytes]

/-- Tuples that reach the limit are refused there, five bytes further for each tuple. -/
theorem failsAfter_nest {marker : UInt16} {depth count : Nat} (hdepth : depth + count = maxDepth)
    (table : Array Bytes) :
    FailsAfter (objectAt marker depth).read (write (nest count)) table (5 * count) .tooDeep := by
  induction count generalizing depth with
  | zero =>
    rw [objectAt_of_ge marker (by omega)]
    intro tail position
    rfl
  | succ count ih =>
    have hinner : FailsAfter (objectAt marker (depth + 1)).read (write (nest count)) table
        (5 * count) .tooDeep := ih (by omega)
    have hcount : 5 * (count + 1) = 1 + (4 + 5 * count) := by omega
    rw [objectAt_of_lt marker (by omega), write_nest_succ, hcount]
    exact .level (.sequence (by decide) hinner.members)

/-- A tuple of two strings and of tuples down to the limit. -/
def deepConsts (first second : Spelling) : List Piece :=
  sequencePieces .tuple [[.string first], [.string second], nest 1998]

def deepParts (first second : Spelling) : CodeParts where
  code := .inline []
  consts := deepConsts first second
  names := sequencePieces .tuple []
  varnames := sequencePieces .tuple []
  freevars := sequencePieces .tuple []
  cellvars := sequencePieces .tuple []
  filename := .inline []
  name := .inline []
  firstLine := 1
  lnotab := .inline []

def deep (first second : Spelling) : List Piece :=
  .fixed [Tag.code.toByte] :: (deepParts first second).pieces

theorem inlined_deep (first second : Spelling) :
    inlined (deep first second) = deep (.inline first.raw) (.inline second.raw) := by
  have hnest : (nest 1998).map Piece.inlined = nest 1998 := inlined_nest 1998
  simp [inlined, deep, deepParts, deepConsts, CodeParts.pieces, CodeParts.head, CodeParts.tail,
    sequencePieces, Piece.inlined, Spelling.raw, hnest]

theorem encoding_deep {first second : Spelling} (hfirst : first.Fits) (hsecond : second.Fits) :
    Encoding (deep first second) := by
  have hinline : (Spelling.inline []).Fits := by decide
  apply Encoding.code
  · simp only [CodeParts.strings, deepParts, List.forall_mem_cons]
    exact ⟨hinline, hinline, hinline, hinline, by simp⟩
  · simp only [CodeParts.tables, deepParts, List.forall_mem_cons]
    have hthree : 3 < countLimit := by decide
    refine ⟨.sequence .tuple hthree ?_, encoding_empty, encoding_empty, encoding_empty,
      encoding_empty, by simp⟩
    simp only [List.forall_mem_cons]
    exact ⟨.string hfirst, .string hsecond, encoding_nest 1998, by simp⟩

theorem write_deepConsts (first second : Spelling) : write (deepConsts first second) =
    [(Tag.sequence .tuple).toByte] ++ (Word.encode 4 3 ++
      (write [.string first] ++ (write [.string second] ++ write (nest 1998)))) := by
  simp [deepConsts, sequencePieces, write, Piece.bytes]

theorem failsAfter_deepConsts {first second : Spelling} {marker : UInt16} (hfirst : first.Fits)
    (hsecond : second.Fits) (hresolve : AllResolve #[] [first, second]) :
    FailsAfter (objectAt marker 1).read (write (deepConsts first second)) #[]
      (1 + (4 + ((write [.string first]).length +
        ((write [.string second]).length + 5 * 1998)))) .tooDeep := by
  have hnest : FailsAfter (objectAt marker 2).read (write (nest 1998))
      (second.enter (first.enter #[])) (5 * 1998) .tooDeep := failsAfter_nest rfl _
  have htakes : TakesString (objectAt marker 2).read fun raw => .str (Utf8.decodeLossy raw) := by
    rw [objectAt_of_lt marker (by decide)]
    exact takesString_level marker _
  rw [objectAt_of_lt marker (by decide), write_deepConsts]
  apply FailsAfter.level
  apply FailsAfter.sequence (by decide)
  apply FailsAfter.members_ok (htakes.of_resolves hfirst hresolve.1)
  apply FailsAfter.members_ok (htakes.of_resolves hsecond hresolve.2.1)
  exact hnest.members

theorem reads_deepHead (first second : Spelling) :
    Reads codeHead (write (deepParts first second).head) ⟨0, 0, 0, 0, []⟩ := by
  have hcount : ([] : Bytes).length < countLimit := by decide
  exact reads_codeHead (Reads.rawString hcount)

theorem load_deep {first second : Spelling} (hfirst : first.Fits) (hsecond : second.Fits)
    (hresolve : AllResolve #[] [first, second]) :
    load (container ⟨62211, 0⟩ (deep first second) []) .v27 =
      .error (.malformed (10025 + ((write [.string first]).length +
        (write [.string second]).length)) .tooDeep) := by
  obtain ⟨rest, hpieces⟩ : ∃ rest, write (deepParts first second).pieces =
      write (deepParts first second).head ++ (write (deepConsts first second) ++ rest) :=
    ⟨_, by rw [CodeParts.pieces, write_append, write_append, deepParts]⟩
  have hread : FailsAfter (objectAt Format.v27.magic 0).read (write (deep first second)) #[]
      (1 + (21 + (1 + (4 + ((write [.string first]).length +
        ((write [.string second]).length + 5 * 1998)))))) .tooDeep := by
    rw [objectAt_of_lt _ (by decide)]
    show FailsAfter _ ([Tag.code.toByte] ++ write (deepParts first second).pieces) _ _ _
    rw [hpieces]
    apply FailsAfter.level
    apply FailsAfter.bind_reads (reads_deepHead first second)
    exact ((failsAfter_deepConsts hfirst hsecond hresolve).append rest).bind
  have hload : load (container ⟨62211, 0⟩ (deep first second) []) .v27 = _ :=
    load_of_error rfl (hread [] headerSize)
  rw [hload]
  simp only [headerSize]
  congr 2
  omega

/-- The second string is a reference to the first. -/
def deepSharing : List Piece :=
  deep (.interned [0x61, 0x62]) (.reference 0 [0x61, 0x62])

theorem allResolve_deepSharing : AllResolve #[] (spellings deepSharing) := by
  have hnest : (nest 1998).flatMap Piece.spellings = [] := spellings_nest 1998
  simp [deepSharing, deep, deepParts, deepConsts, CodeParts.pieces, CodeParts.head,
    CodeParts.tail, sequencePieces, spellings, Piece.spellings, hnest, AllResolve,
    Spelling.Resolves, Spelling.enter]

/-- A reference is shorter than the string it stands for, so a failure behind it is reported at
an earlier byte. -/
theorem position_depends_on_spelling :
    Encoding deepSharing ∧ AllResolve #[] (spellings deepSharing) ∧
      load (container ⟨62211, 0⟩ deepSharing []) .v27 = .error (.malformed 10037 .tooDeep) ∧
      load (container ⟨62211, 0⟩ (inlined deepSharing) []) .v27 =
        .error (.malformed 10039 .tooDeep) ∧
      load (container ⟨62211, 0⟩ deepSharing []) .v27 ≠
        load (container ⟨62211, 0⟩ (inlined deepSharing) []) .v27 := by
  have hshared : load (container ⟨62211, 0⟩ deepSharing []) .v27 =
      .error (.malformed 10037 .tooDeep) :=
    load_deep (by decide) (by decide) ⟨trivial, rfl, trivial⟩
  have hinlined : load (container ⟨62211, 0⟩ (inlined deepSharing) []) .v27 =
      .error (.malformed 10039 .tooDeep) := by
    rw [deepSharing, inlined_deep]
    exact load_deep (by decide) (by decide) ⟨trivial, trivial, trivial⟩
  refine ⟨encoding_deep (by decide) (by decide), allResolve_deepSharing, hshared, hinlined, ?_⟩
  rw [hshared, hinlined]
  exact nofun

end ImportAtlas.Container
