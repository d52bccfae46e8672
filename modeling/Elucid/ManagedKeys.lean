import Elucid.OutputRecord
import Elucid.TextEncoding

/-!
# Texts of managed keys

The key of an object is a path under a managed root : a namespace, the identity of the owner, and
a file with the identity of the object. The metastore has the text of the key next to the
identities, and the key is made of them again. The paths are those of `object_store` :
`ObjectPath.Documented` is what is assumed of them.

Both readers cut the suffix of the identities off a text and parse the rest as a root
(`parseKey`). A text is the one of a key under one root at most (`joinPath_inj`), however much
of it looks like a suffix, so that `parseKey_eq_ok_iff` is all there is to say about a reader.

The worker and the metastore know a key by its root, its owner and its object
(`Elucid.ManagedObjectKey`). `asStr_ofParts_inj` : nothing is lost, as two keys have one text
exactly if they have these in common.
-/

namespace Elucid

open BigEndian List

/-! ## Paths -/

/-- `Path` of `object_store`, as its text. -/
class ObjectPath where
  /-- `Error`. -/
  Error : Type
  /-- `Path::parse`. -/
  parse : Text → Except Error Text
  /-- `Path::child`, of a part that is yet to be encoded. -/
  child : Text → Text → Text

namespace KeyText

/-- The bytes of a path that are never encoded. -/
def isPlainByte (byte : UInt8) : Bool :=
  0x61 ≤ byte && byte ≤ 0x7A || 0x30 ≤ byte && byte ≤ 0x39 || byte = 0x2D || byte = 0x2E

/-- A part of a path that is its own encoding : it has such bytes, not all of them dots. -/
structure IsPlain (part : Text) : Prop where
  bytes : ∀ byte ∈ part, isPlainByte byte = true
  other : ∃ byte ∈ part, byte ≠ 0x2E

/-- A path and what is behind it, with a slash between them unless the path is empty. -/
def joinPath (path part : Text) : Text := if path = [] then part else path ++ 0x2F :: part

/-- The text has no slash at its ends. -/
def IsTrimmed (text : Text) : Prop := text.head? ≠ some 0x2F ∧ text.getLast? ≠ some 0x2F

end KeyText

open KeyText in
/-- A path is continued behind a slash, and parsing removes slashes at the ends of a text only. -/
structure ObjectPath.Documented [ObjectPath] : Prop where
  child : ∀ path part, IsPlain part → ObjectPath.child path part = joinPath path part
  parse : ∀ text path, IsTrimmed text → ObjectPath.parse text = .ok path → path = text

namespace KeyText

theorem IsPlain.append {part rest : Text} (h : IsPlain part)
    (hrest : ∀ byte ∈ rest, isPlainByte byte = true) : IsPlain (part ++ rest) := by
  obtain ⟨byte, hmem, hbyte⟩ := h.other
  refine ⟨fun byte hmem => ?_, byte, mem_append_left _ hmem, hbyte⟩
  rcases mem_append.mp hmem with hmem | hmem
  · exact h.bytes byte hmem
  · exact hrest byte hmem

theorem isPlain_of_all {part : Text} (byte : UInt8) (hall : part.all isPlainByte = true)
    (hmem : part.contains byte = true) (hbyte : byte ≠ 0x2E) : IsPlain part :=
  ⟨all_eq_true.mp hall, byte, contains_iff_mem.mp hmem, hbyte⟩

theorem isPlain_uuidText (uuid : Uuid) : IsPlain (uuidText uuid.bytes) := by
  have hdigits : ∀ digit : Fin 16, isPlainByte (hexDigit digit) = true ∧
      hexDigit digit ≠ 0x2E := by decide
  have hboth : ∀ byte ∈ uuidText uuid.bytes, isPlainByte byte = true ∧ byte ≠ 0x2E := by
    intro byte hmem
    rcases mem_uuidText hmem with rfl | ⟨digit, rfl⟩
    · decide
    · exact hdigits digit
  have hlength : 0 < (uuidText uuid.bytes).length := by
    rw [length_uuidText uuid.length_bytes]
    decide
  obtain ⟨byte, hmem⟩ := exists_mem_of_length_pos hlength
  exact ⟨fun byte hmem => (hboth byte hmem).1, byte, hmem, (hboth byte hmem).2⟩

theorem joinPath_joinPath {path first second : Text} (hfirst : first ≠ []) :
    joinPath (joinPath path first) second = joinPath path (first ++ 0x2F :: second) := by
  unfold joinPath
  by_cases hpath : path = []
  · rw [if_pos hpath, if_pos hpath, if_neg hfirst]
  · rw [if_neg hpath, if_neg hpath, if_neg (append_ne_nil_of_left_ne_nil hpath _),
      append_assoc, cons_append]

/-- A path and a part behind it can be told from the text and the length of the part. -/
theorem joinPath_inj {path other part rest : Text} (hlength : part.length = rest.length)
    (h : joinPath path part = joinPath other rest) : path = other ∧ part = rest := by
  have hjoined := congrArg List.length h
  unfold joinPath at h hjoined
  by_cases hpath : path = [] <;> by_cases hother : other = []
  · rw [if_pos hpath, if_pos hother] at h
    exact ⟨hpath.trans hother.symm, h⟩
  · rw [if_pos hpath, if_neg hother, length_append, length_cons] at hjoined
    omega
  · rw [if_neg hpath, if_pos hother, length_append, length_cons] at hjoined
    omega
  · rw [if_neg hpath, if_neg hother] at h
    obtain ⟨hfront, hback⟩ := append_inj' h (congrArg (· + 1) hlength)
    exact ⟨hfront, (List.cons.inj hback).2⟩

theorem length_joinPath_le (path part : Text) :
    (joinPath path part).length ≤ path.length + 1 + part.length := by
  unfold joinPath
  split_ifs
  · omega
  · rw [length_append, length_cons]
    omega

/-! ## Suffixes -/

/-- `str::strip_suffix`. -/
def stripSuffix (value suffix : Text) : Option Text :=
  if suffix.isSuffixOf value then some (value.take (value.length - suffix.length)) else none

theorem stripSuffix_append (front suffix : Text) :
    stripSuffix (front ++ suffix) suffix = some front := by
  unfold stripSuffix
  rw [if_pos (isSuffixOf_iff_suffix.mpr (suffix_append _ _)), length_append,
    Nat.add_sub_cancel, take_left]

/-- The suffix of `parse_parquet`. -/
def parquetSuffix (segmentId : SegmentId) (objectId : StoredObjectId) : Text :=
  Text.ofString "segments" ++ 0x2F :: (uuidText segmentId.bytes ++
    0x2F :: (uuidText objectId.bytes ++ .ofString ".parquet"))

/-- The suffix of `parse_dead_letter`. -/
def deadLetterSuffix (batchId : BatchId) (objectId : StoredObjectId) : Text :=
  Text.ofString "dead-letters" ++ 0x2F :: (uuidText batchId.uuid.bytes ++
    0x2F :: (uuidText objectId.bytes ++ .ofString ".ndjson"))

theorem length_parquetSuffix (segmentId : SegmentId) (objectId : StoredObjectId) :
    (parquetSuffix segmentId objectId).length = 90 := by
  simp only [parquetSuffix, length_append, length_cons,
    length_uuidText segmentId.length_bytes, length_uuidText objectId.length_bytes]
  decide

theorem length_deadLetterSuffix (batchId : BatchId) (objectId : StoredObjectId) :
    (deadLetterSuffix batchId objectId).length = 93 := by
  simp only [deadLetterSuffix, length_append, length_cons,
    length_uuidText batchId.uuid.length_bytes, length_uuidText objectId.length_bytes]
  decide

/-- The identities in a suffix can be told from it. -/
theorem identities_inj {front extension : Text} {owner other object file : Uuid}
    (h : front ++ 0x2F :: (uuidText owner.bytes ++ 0x2F :: (uuidText object.bytes ++ extension)) =
      front ++ 0x2F :: (uuidText other.bytes ++ 0x2F :: (uuidText file.bytes ++ extension))) :
    owner = other ∧ object = file := by
  have htail := (List.cons.inj (append_cancel_left h)).2
  have hlength : (uuidText owner.bytes).length = (uuidText other.bytes).length := by
    rw [length_uuidText owner.length_bytes, length_uuidText other.length_bytes]
  obtain ⟨howner, hfile⟩ := append_inj htail hlength
  exact ⟨Uuid.eq_of_uuidText_eq howner,
    Uuid.eq_of_uuidText_eq (append_cancel_right (List.cons.inj hfile).2)⟩

theorem getLast?_joinPath_append (path front : Text) {file : Text} (hfile : file ≠ []) :
    (joinPath path (front ++ file)).getLast? = file.getLast? := by
  unfold joinPath
  split_ifs
  · exact getLast?_append_of_ne_nil _ hfile
  · rw [← cons_append, ← append_assoc]
    exact getLast?_append_of_ne_nil _ hfile

/-- The last bytes of the extensions differ. -/
theorem joinPath_parquetSuffix_ne (path other : Text) (segmentId : SegmentId) (batchId : BatchId)
    (objectId otherId : StoredObjectId) :
    joinPath path (parquetSuffix segmentId objectId) ≠
      joinPath other (deadLetterSuffix batchId otherId) := by
  intro heq
  have hlast := congrArg List.getLast? heq
  rw [parquetSuffix, deadLetterSuffix] at hlast
  simp only [← cons_append, ← append_assoc] at hlast
  rw [getLast?_joinPath_append _ _ (by decide), getLast?_joinPath_append _ _ (by decide)] at hlast
  exact absurd hlast (by decide)

/-! ## Roots -/

def maximumManagedKeyBytes : Nat := 1024

def maximumManagedSuffixBytes : Nat :=
  1 + (Text.ofString "dead-letters").length + 1 + 36 + 1 + 36 + (Text.ofString ".ndjson").length

def maximumRootPrefixBytes : Nat := maximumManagedKeyBytes - maximumManagedSuffixBytes

section Keys

variable [ObjectPath]
variable {result : ManagedObjectKey} {value : Text} {suffix : Text}
variable {key : ManagedRoot → ManagedObjectKey} {objectId : StoredObjectId}

/-- `StorageModelError`, as far as keys have it. -/
inductive KeyError
  | rootPrefixTooLong (maximumBytes : Nat)
  | rootPrefixNotCanonical
  | rootPrefixInvalid (source : ObjectPath.Error)
  | parquetManagedKeyIdentityMismatch
  | deadLetterManagedKeyIdentityMismatch

/-- The path that `ManagedRoot::parse` accepts for a text. -/
def rootPath (value : Text) : Except KeyError Text :=
  if value.length > maximumRootPrefixBytes then .error (.rootPrefixTooLong maximumRootPrefixBytes)
  else if value.head? = some 0x2F ∨ value.getLast? = some 0x2F then .error .rootPrefixNotCanonical
  else (ObjectPath.parse value).mapError .rootPrefixInvalid

/-- `ManagedRoot` : a path that was accepted. -/
@[ext] structure ManagedRoot where
  path : Text
  accepted : ∃ value, rootPath value = .ok path

/-- `ManagedRoot::parse`. -/
def ManagedRoot.parse (value : Text) : Except KeyError ManagedRoot :=
  match h : rootPath value with
  | .ok path => .ok ⟨path, value, h⟩
  | .error error => .error error

/-! ## Keys -/

structure ManagedObjectKey where
  path : Text
  kind : ManagedObjectKind
  owner : ObjectOwner
  objectId : StoredObjectId
  deriving DecidableEq

/-- `ManagedObjectKey::as_str`. -/
def ManagedObjectKey.asStr (key : ManagedObjectKey) : Text := key.path

/-- `ManagedObjectKey::new`. -/
def ManagedObjectKey.new (root : ManagedRoot) (namespaceName ownerId filename : Text)
    (kind : ManagedObjectKind) (owner : ObjectOwner) (objectId : StoredObjectId) :
    ManagedObjectKey :=
  ⟨ObjectPath.child (ObjectPath.child (ObjectPath.child root.path namespaceName) ownerId) filename,
    kind, owner, objectId⟩

/-- `ManagedObjectKey::parquet`. -/
def ManagedObjectKey.parquet (root : ManagedRoot) (segmentId : SegmentId)
    (objectId : StoredObjectId) : ManagedObjectKey :=
  .new root (.ofString "segments") (uuidText segmentId.bytes)
    (uuidText objectId.bytes ++ .ofString ".parquet") .parquetData (.segment segmentId) objectId

/-- `ManagedObjectKey::dead_letter`. -/
def ManagedObjectKey.deadLetter (root : ManagedRoot) (batchId : BatchId)
    (objectId : StoredObjectId) : ManagedObjectKey :=
  .new root (.ofString "dead-letters") (uuidText batchId.uuid.bytes)
    (uuidText objectId.bytes ++ .ofString ".ndjson") .deadLetter (.deadLetterBatch batchId) objectId

/-- The text of the root in the text of a key. -/
def rootText (suffix : Text) (mismatch : KeyError) (value : Text) : Except KeyError Text :=
  if value = suffix then .ok [] else okOr (stripSuffix value (0x2F :: suffix)) mismatch

/-- What `parse_parquet` and `parse_dead_letter` do with a suffix. -/
def parseKey (key : ManagedRoot → ManagedObjectKey) (suffix : Text) (mismatch : KeyError)
    (value : Text) : Except KeyError ManagedObjectKey := do
  let root ← ManagedRoot.parse (← rootText suffix mismatch value)
  ensure ((key root).asStr = value) mismatch
  return key root

/-- `ManagedObjectKey::parse_parquet`. -/
def ManagedObjectKey.parseParquet (value : Text) (segmentId : SegmentId)
    (objectId : StoredObjectId) : Except KeyError ManagedObjectKey :=
  parseKey (.parquet · segmentId objectId) (parquetSuffix segmentId objectId)
    .parquetManagedKeyIdentityMismatch value

/-- `ManagedObjectKey::parse_dead_letter`. -/
def ManagedObjectKey.parseDeadLetter (value : Text) (batchId : BatchId)
    (objectId : StoredObjectId) : Except KeyError ManagedObjectKey :=
  parseKey (.deadLetter · batchId objectId) (deadLetterSuffix batchId objectId)
    .deadLetterManagedKeyIdentityMismatch value

/-! ## Accepted roots -/

theorem rootPath_eq_ok {path : Text} (hpaths : ObjectPath.Documented)
    (h : rootPath value = .ok path) : path = value ∧ value.length ≤ maximumRootPrefixBytes := by
  unfold rootPath at h
  split_ifs at h with hlong htrimmed
  rw [not_or] at htrimmed
  exact ⟨hpaths.parse value path htrimmed (mapError_eq_ok.mp h), Nat.le_of_not_lt hlong⟩

theorem ManagedRoot.parse_eq_ok {root : ManagedRoot} :
    ManagedRoot.parse value = .ok root ↔ rootPath value = .ok root.path := by
  unfold ManagedRoot.parse
  split
  · next path hpath => simp only [hpath, Except.ok.injEq, ManagedRoot.ext_iff]
  · next error herror => simp only [herror, reduceCtorEq]

/-- The path of a root is accepted again. -/
theorem ManagedRoot.parse_path (hpaths : ObjectPath.Documented) (root : ManagedRoot) :
    ManagedRoot.parse root.path = .ok root := by
  obtain ⟨value, hvalue⟩ := root.accepted
  have hpath := (rootPath_eq_ok hpaths hvalue).1
  rw [← hpath] at hvalue
  exact ManagedRoot.parse_eq_ok.mpr hvalue

theorem ManagedRoot.length_path_le (hpaths : ObjectPath.Documented) (root : ManagedRoot) :
    root.path.length ≤ maximumRootPrefixBytes := by
  obtain ⟨value, hvalue⟩ := root.accepted
  obtain ⟨hpath, hlength⟩ := rootPath_eq_ok hpaths hvalue
  rwa [hpath]

/-! ## Keys and their suffixes -/

/-- A key is its root and three parts. -/
theorem asStr_new (hpaths : ObjectPath.Documented) (root : ManagedRoot)
    {namespaceName ownerId filename : Text} (hnamespace : IsPlain namespaceName)
    (howner : IsPlain ownerId) (hfilename : IsPlain filename) (kind : ManagedObjectKind)
    (owner : ObjectOwner) (objectId : StoredObjectId) :
    (ManagedObjectKey.new root namespaceName ownerId filename kind owner objectId).asStr =
      joinPath root.path (namespaceName ++ 0x2F :: (ownerId ++ 0x2F :: filename)) := by
  have hne {part : Text} (h : IsPlain part) : part ≠ [] := by
    obtain ⟨byte, hmem, -⟩ := h.other
    exact ne_nil_of_mem hmem
  unfold ManagedObjectKey.new ManagedObjectKey.asStr
  rw [hpaths.child _ _ hnamespace, hpaths.child _ _ howner, hpaths.child _ _ hfilename,
    joinPath_joinPath (hne hnamespace), joinPath_joinPath (append_ne_nil_of_left_ne_nil
      (hne hnamespace) _), append_assoc, cons_append]

theorem asStr_parquet (hpaths : ObjectPath.Documented) (root : ManagedRoot) (segmentId : SegmentId)
    (objectId : StoredObjectId) :
    (ManagedObjectKey.parquet root segmentId objectId).asStr =
      joinPath root.path (parquetSuffix segmentId objectId) :=
  asStr_new hpaths root (isPlain_of_all 0x73 (by decide) (by decide) (by decide))
    (isPlain_uuidText segmentId)
    ((isPlain_uuidText objectId).append (all_eq_true.mp (by decide))) _ _ _

theorem asStr_deadLetter (hpaths : ObjectPath.Documented) (root : ManagedRoot) (batchId : BatchId)
    (objectId : StoredObjectId) :
    (ManagedObjectKey.deadLetter root batchId objectId).asStr =
      joinPath root.path (deadLetterSuffix batchId objectId) :=
  asStr_new hpaths root (isPlain_of_all 0x64 (by decide) (by decide) (by decide))
    (isPlain_uuidText batchId.uuid)
    ((isPlain_uuidText objectId).append (all_eq_true.mp (by decide))) _ _ _

theorem rootText_joinPath (path suffix : Text) (mismatch : KeyError) :
    rootText suffix mismatch (joinPath path suffix) = .ok path := by
  unfold rootText joinPath
  by_cases hpath : path = []
  · rw [if_pos hpath, if_pos rfl, hpath]
  · have hne : path ++ 0x2F :: suffix ≠ suffix := by
      intro heq
      have hlength := congrArg List.length heq
      rw [length_append, length_cons] at hlength
      omega
    rw [if_neg hpath, if_neg hne, stripSuffix_append, okOr_some]

/-- A reader accepts the texts of the keys, and returns the key. -/
theorem parseKey_eq_ok_iff (hpaths : ObjectPath.Documented)
    (hkey : ∀ root, (key root).asStr = joinPath root.path suffix) {mismatch : KeyError} :
    parseKey key suffix mismatch value = .ok result ↔
      ∃ root, key root = result ∧ (key root).asStr = value := by
  unfold parseKey
  constructor
  · intro h
    obtain ⟨_, -, h⟩ := bind_eq_ok.mp h
    obtain ⟨root, -, h⟩ := bind_eq_ok.mp h
    obtain ⟨_, hvalue, h⟩ := bind_eq_ok.mp h
    exact ⟨root, Except.ok.inj h, ensure_eq_ok.mp hvalue⟩
  · rintro ⟨root, rfl, rfl⟩
    have hroot : rootText suffix mismatch (key root).asStr = .ok root.path := by
      rw [hkey, rootText_joinPath]
    rw [hroot, ok_bind, ManagedRoot.parse_path hpaths, ok_bind, ensure_of rfl, ok_bind]
    rfl

/-- Exactly the texts of Parquet keys are parsed. -/
theorem parseParquet_eq_ok_iff (hpaths : ObjectPath.Documented) {segmentId : SegmentId} :
    ManagedObjectKey.parseParquet value segmentId objectId = .ok result ↔
      ∃ root, .parquet root segmentId objectId = result ∧
        (ManagedObjectKey.parquet root segmentId objectId).asStr = value :=
  parseKey_eq_ok_iff hpaths (asStr_parquet hpaths · segmentId objectId)

/-- Exactly the texts of dead-letter keys are parsed. -/
theorem parseDeadLetter_eq_ok_iff (hpaths : ObjectPath.Documented) {batchId : BatchId} :
    ManagedObjectKey.parseDeadLetter value batchId objectId = .ok result ↔
      ∃ root, .deadLetter root batchId objectId = result ∧
        (ManagedObjectKey.deadLetter root batchId objectId).asStr = value :=
  parseKey_eq_ok_iff hpaths (asStr_deadLetter hpaths · batchId objectId)

/-- There is one root for the text of a key. -/
theorem root_unique (hkey : ∀ root, (key root).asStr = joinPath root.path suffix)
    {root other : ManagedRoot} (h : (key other).asStr = (key root).asStr) : other = root := by
  rw [hkey, hkey] at h
  exact ManagedRoot.ext (joinPath_inj rfl h).1

theorem length_joinPath_le_maximum (hpaths : ObjectPath.Documented) (root : ManagedRoot)
    (h : suffix.length ≤ 93) :
    (joinPath root.path suffix).length ≤ maximumManagedKeyBytes := by
  have hpath := root.length_path_le hpaths
  have hjoin := length_joinPath_le root.path suffix
  have hmaximum : maximumRootPrefixBytes + 94 = maximumManagedKeyBytes := by decide
  omega

/-! ## Keys by their parts -/

/-- The key that a root, an owner and an object have, where `roots` are the parsed roots. -/
def ManagedObjectKey.ofParts (roots : Elucid.ManagedRoot → ManagedRoot)
    (key : Elucid.ManagedObjectKey) : ManagedObjectKey :=
  match key.owner with
  | .segment segmentId => .parquet (roots key.root) segmentId key.objectId
  | .deadLetterBatch batchId => .deadLetter (roots key.root) batchId key.objectId

/-- The kind, the owner and the object are those of the parts. -/
theorem ofParts_identities (roots : Elucid.ManagedRoot → ManagedRoot)
    (key : Elucid.ManagedObjectKey) :
    (ManagedObjectKey.ofParts roots key).kind = key.kind ∧
      (ManagedObjectKey.ofParts roots key).owner = key.owner ∧
      (ManagedObjectKey.ofParts roots key).objectId = key.objectId := by
  obtain ⟨root, owner, objectId⟩ := key
  cases owner <;> exact ⟨rfl, rfl, rfl⟩

/-- Two keys have one text exactly if they have the same parts. -/
theorem asStr_ofParts_inj (hpaths : ObjectPath.Documented)
    {roots : Elucid.ManagedRoot → ManagedRoot} (hroots : Function.Injective roots)
    {key other : Elucid.ManagedObjectKey} :
    (ManagedObjectKey.ofParts roots key).asStr = (ManagedObjectKey.ofParts roots other).asStr ↔
      key = other := by
  refine ⟨fun h => ?_, fun h => h ▸ rfl⟩
  obtain ⟨root, owner, objectId⟩ := key
  obtain ⟨otherRoot, otherOwner, otherId⟩ := other
  cases owner with
  | segment segmentId =>
    cases otherOwner with
    | segment otherSegment =>
      simp only [ManagedObjectKey.ofParts, asStr_parquet hpaths] at h
      obtain ⟨hpath, hsuffix⟩ :=
        joinPath_inj (by rw [length_parquetSuffix, length_parquetSuffix]) h
      obtain ⟨rfl, rfl⟩ := identities_inj hsuffix
      rw [hroots (ManagedRoot.ext hpath)]
    | deadLetterBatch batchId =>
      simp only [ManagedObjectKey.ofParts, asStr_parquet hpaths, asStr_deadLetter hpaths] at h
      exact absurd h (joinPath_parquetSuffix_ne _ _ _ _ _ _)
  | deadLetterBatch batchId =>
    cases otherOwner with
    | segment otherSegment =>
      simp only [ManagedObjectKey.ofParts, asStr_parquet hpaths, asStr_deadLetter hpaths] at h
      exact absurd h.symm (joinPath_parquetSuffix_ne _ _ _ _ _ _)
    | deadLetterBatch otherBatch =>
      simp only [ManagedObjectKey.ofParts, asStr_deadLetter hpaths] at h
      obtain ⟨hpath, hsuffix⟩ :=
        joinPath_inj (by rw [length_deadLetterSuffix, length_deadLetterSuffix]) h
      obtain ⟨hbatch, rfl⟩ := identities_inj hsuffix
      obtain rfl : batchId = otherBatch := UuidV7.eq_of_uuidText_eq (by rw [hbatch])
      rw [hroots (ManagedRoot.ext hpath)]

/-- A key is read from its text and from no other, a text is the one of a key under one root, the
two readers accept different texts, and no text of a key is too long. -/
theorem managedKeys_exact (hpaths : ObjectPath.Documented) :
    (∀ root segmentId objectId, ManagedObjectKey.parseParquet
        (ManagedObjectKey.parquet root segmentId objectId).asStr segmentId objectId =
      .ok (.parquet root segmentId objectId)) ∧
    (∀ root batchId objectId, ManagedObjectKey.parseDeadLetter
        (ManagedObjectKey.deadLetter root batchId objectId).asStr batchId objectId =
      .ok (.deadLetter root batchId objectId)) ∧
    (∀ value segmentId objectId key,
      ManagedObjectKey.parseParquet value segmentId objectId = .ok key →
      key.asStr = value ∧ ∃ root, key = .parquet root segmentId objectId ∧
        ∀ other, (ManagedObjectKey.parquet other segmentId objectId).asStr = value →
          other = root) ∧
    (∀ value batchId objectId key,
      ManagedObjectKey.parseDeadLetter value batchId objectId = .ok key →
      key.asStr = value ∧ ∃ root, key = .deadLetter root batchId objectId ∧
        ∀ other, (ManagedObjectKey.deadLetter other batchId objectId).asStr = value →
          other = root) ∧
    (∀ value segmentId batchId objectId otherId key other,
      ManagedObjectKey.parseParquet value segmentId objectId = .ok key →
      ManagedObjectKey.parseDeadLetter value batchId otherId ≠ .ok other) ∧
    (∀ root segmentId objectId,
      (ManagedObjectKey.parquet root segmentId objectId).asStr.length ≤ 1024) ∧
    ∀ root batchId objectId,
      (ManagedObjectKey.deadLetter root batchId objectId).asStr.length ≤ 1024 := by
  refine ⟨fun root segmentId objectId => ?_, fun root batchId objectId => ?_,
    fun value segmentId objectId key h => ?_, fun value batchId objectId key h => ?_,
    fun value segmentId batchId objectId otherId key other h hother => ?_,
    fun root segmentId objectId => ?_, fun root batchId objectId => ?_⟩
  · exact (parseParquet_eq_ok_iff hpaths).mpr ⟨root, rfl, rfl⟩
  · exact (parseDeadLetter_eq_ok_iff hpaths).mpr ⟨root, rfl, rfl⟩
  · obtain ⟨root, rfl, rfl⟩ := (parseParquet_eq_ok_iff hpaths).mp h
    exact ⟨rfl, root, rfl, fun _ => root_unique (asStr_parquet hpaths · segmentId objectId)⟩
  · obtain ⟨root, rfl, rfl⟩ := (parseDeadLetter_eq_ok_iff hpaths).mp h
    exact ⟨rfl, root, rfl, fun _ => root_unique (asStr_deadLetter hpaths · batchId objectId)⟩
  · obtain ⟨root, -, hvalue⟩ := (parseParquet_eq_ok_iff hpaths).mp h
    obtain ⟨otherRoot, -, hsame⟩ := (parseDeadLetter_eq_ok_iff hpaths).mp hother
    rw [← hvalue, asStr_parquet hpaths, asStr_deadLetter hpaths] at hsame
    exact joinPath_parquetSuffix_ne _ _ _ _ _ _ hsame.symm
  · rw [asStr_parquet hpaths]
    exact length_joinPath_le_maximum hpaths root (by rw [length_parquetSuffix]; decide)
  · rw [asStr_deadLetter hpaths]
    exact length_joinPath_le_maximum hpaths root (length_deadLetterSuffix batchId objectId).le

end Keys

/-! ## The paths of the crate -/

/-- A segment that `PathPart::parse` accepts. -/
def isSegment (segment : Text) : Bool :=
  segment ≠ [] && segment ≠ [0x2E] && segment ≠ [0x2E, 0x2E] &&
    segment.all fun byte => 0x20 ≤ byte && byte ≠ 0x7F

/-- `Path` with its text as it is parsed by the crate, for parts that are their own encoding. -/
@[reducible] def standardPath : ObjectPath where
  Error := Unit
  parse text :=
    let stripped := if text.head? = some 0x2F then text.tail else text
    if stripped = [] then .ok []
    else
      let stripped := if stripped.getLast? = some 0x2F then stripped.dropLast else stripped
      if (stripped.splitOn 0x2F).all isSegment = true then .ok stripped else .error ()
  child := joinPath

/-- A parser of paths as it is documented. -/
theorem standardPath_documented : @ObjectPath.Documented standardPath := by
  refine @ObjectPath.Documented.mk standardPath (fun _ _ _ => rfl) fun text path htext h => ?_
  change (if _ then _ else _) = Except.ok path at h
  rw [if_neg htext.1, if_neg htext.2] at h
  dsimp only at h
  split_ifs at h with hnil
  · exact (Except.ok.inj h).symm.trans hnil.symm
  · exact (Except.ok.inj h).symm

section Sample

attribute [local instance] standardPath

/-- A root with a segment that looks like a namespace. -/
theorem managedKeys_exact_nested :
    ∃ root, ManagedRoot.parse (.ofString "nested/segments") = .ok root ∧
      ManagedObjectKey.parseParquet
        (ManagedObjectKey.parquet root (UuidV7.sample 1).uuid (UuidV7.sample 2).uuid).asStr
        (UuidV7.sample 1).uuid (UuidV7.sample 2).uuid =
      .ok (.parquet root (UuidV7.sample 1).uuid (UuidV7.sample 2).uuid) := by
  have hpath : rootPath (.ofString "nested/segments") = .ok (Text.ofString "nested/segments") :=
    rfl
  exact ⟨⟨_, _, hpath⟩, ManagedRoot.parse_eq_ok.mpr hpath,
    (managedKeys_exact standardPath_documented).1 _ _ _⟩

end Sample

end KeyText

end Elucid
