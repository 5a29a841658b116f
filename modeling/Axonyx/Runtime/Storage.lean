import Axonyx.Core.Expr
import Axonyx.UnixPath
import Axonyx.Wire

/-! Stored objects. A capability stores files below its root, each under the hash of its content
and its own name, and reads them back through references. The file system is a map from places to
contents. -/
namespace Axonyx.Runtime.Storage

open UnixPath (Component IsName)
open Wire (Bytes)

section Model

inductive AxStorageAccess where
  | read
  | write
  | readWrite
  deriving DecidableEq, Repr

def AxStorageAccess.canRead : AxStorageAccess → Bool
  | .read | .readWrite => true
  | .write => false

def AxStorageAccess.canWrite : AxStorageAccess → Bool
  | .write | .readWrite => true
  | .read => false

inductive AxStorageError where
  | invalidCapabilityName
  | invalidFileLimit
  | accessDenied (operation : String)
  | duplicateCapability (name : String)
  | unknownCapability (name : String)
  | invalidFileName
  | invalidContentType
  | fileTooLarge (maxBytes actualBytes : Nat)
  | storageMismatch
  | invalidFileId
  | integrityMismatch
  | io (operation : String)
  deriving DecidableEq, Repr

abbrev Stored (α : Type) := Except AxStorageError α

def isCapabilityChar (c : Char) : Bool := c.isAlphanum || c = '-' || c = '_' || c = '.'

def validateCapabilityName (value : String) : Stored Unit :=
  if value.isEmpty || 64 < value.utf8ByteSize || !value.toList.all isCapabilityChar then
    .error .invalidCapabilityName
  else .ok ()

/-- A capability; its root is a directory of the file system. -/
structure AxCapabilityStorage where
  name : String
  root : List (List Char)
  maxFileBytes : Nat
  access : AxStorageAccess
  deriving DecidableEq

def openWithAccess (name : String) (root : List (List Char)) (maxFileBytes : Nat) (access : AxStorageAccess) :
    Stored AxCapabilityStorage := do
  validateCapabilityName name
  if maxFileBytes = 0 then .error .invalidFileLimit
  else return ⟨name, root, maxFileBytes, access⟩

def isNormal : Option Component → Bool
  | some (.normal _) => true
  | _ => false

def validateFileName (value : String) : Stored Unit :=
  let path := UnixPath.components value.toList
  if value.isEmpty || 255 < value.utf8ByteSize || value.toList.any Text.isControl ||
      UnixPath.isAbsolute value.toList || path.length ≠ 1 ||
      !isNormal path.head? then
    .error .invalidFileName
  else .ok ()

def validateContentType (value : Option String) : Stored Unit :=
  if value.any fun value => value.isEmpty || 255 < value.utf8ByteSize || value.toList.any Text.isControl then
    .error .invalidContentType
  else .ok ()

def isIdChar (c : Char) : Bool := c.isDigit || ('a' ≤ c && c ≤ 'f')

def validateFileId (value : String) : Stored Unit :=
  if value.utf8ByteSize ≠ 64 || !value.toList.all isIdChar then .error .invalidFileId else .ok ()

def objectPath (id fileName : String) : Stored (List Char) := do
  validateFileId id
  validateFileName fileName
  return UnixPath.join (UnixPath.join (UnixPath.join "objects".toList (id.toList.take 2)) id.toList) fileName.toList

structure AxFileRef where
  id : String
  storage : String
  fileName : String
  contentType : Option String
  size : Nat
  deriving DecidableEq, Repr

/-- SHA-256 in lower-case hexadecimal digits. -/
structure Digest where
  sha256Hex : Bytes → String
  shape : ∀ bytes, validateFileId (sha256Hex bytes) = .ok ()

/-- The contents of the files, by place. -/
abbrev Files := List (List Char) → Option Bytes

def Files.write (files : Files) (place : List (List Char)) (bytes : Bytes) : Files :=
  fun other => if other = place then some bytes else files other

/-- A file that is there must have the same content; otherwise it is written. -/
def writeObject (files : Files) (place : List (List Char)) (bytes : Bytes) : Stored Files :=
  match files place with
  | some existing => if existing ≠ bytes then .error .integrityMismatch else .ok files
  | none => .ok (files.write place bytes)

variable (digest : Digest)

/-- `u64::try_from(..).unwrap_or(u64::MAX)`. -/
def sizeOfBytes (bytes : Bytes) : Nat := min bytes.length (2 ^ 64 - 1)

namespace AxCapabilityStorage

variable (storage : AxCapabilityStorage)

/-- Where a path leads below the root. -/
def place (path : List Char) : List (List Char) := UnixPath.resolve storage.root (UnixPath.components path)

def storeBytes (files : Files) (fileName : String) (contentType : Option String) (bytes : Bytes) :
    Stored (AxFileRef × Files) := do
  if !storage.access.canWrite then .error (.accessDenied "write")
  else
    validateFileName fileName
    validateContentType contentType
    let size := sizeOfBytes bytes
    if storage.maxFileBytes < size then .error (.fileTooLarge storage.maxFileBytes size)
    else
      let id := digest.sha256Hex bytes
      -- The directories above the path are made when a file is written to its place.
      let path ← objectPath id fileName
      let files ← writeObject files (storage.place path) bytes
      return (⟨id, storage.name, fileName, contentType, size⟩, files)

def validateRef (fileRef : AxFileRef) : Stored Unit := do
  if fileRef.storage ≠ storage.name then .error .storageMismatch
  else
    validateFileId fileRef.id
    validateFileName fileRef.fileName
    validateContentType fileRef.contentType

def read (files : Files) (fileRef : AxFileRef) : Stored Bytes := do
  if !storage.access.canRead then .error (.accessDenied "read")
  else
    storage.validateRef fileRef
    let path ← objectPath fileRef.id fileRef.fileName
    match files (storage.place path) with
    | none => .error (.io "read-object")
    | some bytes =>
      if sizeOfBytes bytes ≠ fileRef.size ∨ digest.sha256Hex bytes ≠ fileRef.id then .error .integrityMismatch
      else return bytes

end AxCapabilityStorage

/-- The registered capabilities, no name twice. -/
structure AxStorageRegistry where
  capabilities : List AxCapabilityStorage
  distinct : (capabilities.map (·.name)).Nodup

namespace AxStorageRegistry

def register (registry : AxStorageRegistry) (storage : AxCapabilityStorage) : Stored AxStorageRegistry :=
  if fresh : storage.name ∈ registry.capabilities.map (·.name) then .error (.duplicateCapability storage.name)
  else .ok ⟨storage :: registry.capabilities, List.nodup_cons.mpr ⟨fresh, registry.distinct⟩⟩

def get (registry : AxStorageRegistry) (name : String) : Stored AxCapabilityStorage :=
  match registry.capabilities.find? (·.name == name) with
  | some storage => .ok storage
  | none => .error (.unknownCapability name)

end AxStorageRegistry

end Model

section Paths

theorem validateFileName_ok {value : String} (accepted : validateFileName value = .ok ()) :
    UnixPath.isAbsolute value.toList = false ∧ ∃ name, UnixPath.components value.toList = [.normal name] := by
  rw [validateFileName] at accepted
  split at accepted
  · cases accepted
  · next passed =>
    simp only [Bool.or_eq_true, not_or, decide_eq_true_eq, Bool.not_eq_true', Bool.not_eq_false] at passed
    obtain ⟨⟨⟨_, relative⟩, single⟩, normal⟩ := passed
    refine ⟨by simpa using relative, ?_⟩
    match found : UnixPath.components value.toList with
    | [] => simp [found] at single
    | [component] =>
      rw [found] at normal
      cases component with
      | normal name => exact ⟨name, rfl⟩
      | _ => cases normal
    | _ :: _ :: _ => simp [found] at single

/-- An accepted file name is one normal component behind a directory. -/
theorem body_of_accepted {value : String} (accepted : validateFileName value = .ok ()) :
    ∃ name, IsName name ∧ UnixPath.body value.toList = [.normal name] ∧
      UnixPath.components value.toList = [.normal name] := by
  obtain ⟨relative, name, single⟩ := validateFileName_ok accepted
  have isName : IsName name := UnixPath.isName_of_mem (single ▸ List.mem_singleton_self _)
  refine ⟨name, isName, ?_, single⟩
  rw [UnixPath.components, UnixPath.leading, relative] at single
  split at single
  · next absolute => cases absolute
  · split at single
    · cases single
    · exact single

/-- An accepted file name without a slash is a name itself. -/
theorem isName_of_accepted {value : String} (accepted : validateFileName value = .ok ())
    (plain : '/' ∉ value.toList) :
    IsName value.toList ∧ UnixPath.body value.toList = [.normal value.toList] := by
  obtain ⟨name, isName, body, _⟩ := body_of_accepted accepted
  have found : [value.toList].filterMap UnixPath.component? = [.normal name] := by
    rw [← body, UnixPath.body, List.splitOn_eq_singleton plain]
  cases component : UnixPath.component? value.toList with
  | none =>
    rw [List.filterMap_cons, component] at found
    cases found
  | some first =>
    rw [List.filterMap_cons, component] at found
    cases found
    obtain rfl := UnixPath.component_normal component
    exact ⟨isName, body⟩

theorem isName_of_id {id : String} (accepted : validateFileId id = .ok ()) :
    IsName id.toList ∧ IsName (id.toList.take 2) := by
  rw [validateFileId] at accepted
  split at accepted
  · cases accepted
  · next passed =>
    simp only [Bool.or_eq_true, not_or, decide_eq_true_eq, Bool.not_eq_true', Bool.not_eq_false] at passed
    have digits : ∀ c ∈ id.toList, isIdChar c = true := List.all_eq_true.mp passed.2
    have present : id.toList ≠ [] := by
      intro empty
      have none : id = "" := String.toList_eq_nil_iff.mp empty
      rw [none] at passed
      exact absurd passed.1 (by decide)
    have name {text : List Char} (some : text ≠ []) (part : ∀ c ∈ text, c ∈ id.toList) : IsName text := by
      refine ⟨some, fun slash => ?_, ?_, ?_⟩
      · exact absurd (digits _ (part _ slash)) (by decide)
      · rintro rfl
        exact absurd (digits _ (part '.' (List.mem_singleton_self _))) (by decide)
      · rintro rfl
        exact absurd (digits _ (part '.' List.mem_cons_self)) (by decide)
    refine ⟨name present fun _ member => member, name ?_ fun _ member => List.mem_of_mem_take member⟩
    cases cut : id.toList with
    | nil => exact absurd cut present
    | cons c rest => exact List.cons_ne_nil _ _

/-- The components of an object's path. -/
theorem objectPath_components {id fileName : String} {path : List Char} (accepted : objectPath id fileName = .ok path) :
    validateFileId id = .ok () ∧ validateFileName fileName = .ok () ∧
      UnixPath.components path =
        [.normal "objects".toList, .normal (id.toList.take 2), .normal id.toList] ++ UnixPath.body fileName.toList := by
  obtain ⟨idOk, rest⟩ := Outcome.bind_unit_ok.mp accepted
  obtain ⟨nameOk, rest⟩ := Outcome.bind_unit_ok.mp rest
  obtain rfl := Except.ok.inj rest
  obtain ⟨whole, front⟩ := isName_of_id idOk
  have objects : IsName "objects".toList := ⟨by decide, by decide, by decide, by decide⟩
  have first := objects.isOpen.join front
  refine ⟨idOk, nameOk, ?_⟩
  rw [(first.join whole).components_join (validateFileName_ok nameOk).1, first.components_join whole.relative,
    objects.isOpen.components_join front.relative, objects.components, front.body, whole.body]
  rfl

/-- An object lies four names below the root of any capability. -/
theorem place_objectPath {id fileName : String} {path : List Char} (accepted : objectPath id fileName = .ok path)
    (storage : AxCapabilityStorage) : ∃ name, IsName name ∧ UnixPath.body fileName.toList = [.normal name] ∧
      storage.place path = storage.root ++ ["objects".toList, id.toList.take 2, id.toList, name] := by
  obtain ⟨_, nameOk, components⟩ := objectPath_components accepted
  obtain ⟨name, isName, body, _⟩ := body_of_accepted nameOk
  refine ⟨name, isName, body, ?_⟩
  rw [body] at components
  rw [AxCapabilityStorage.place, components]
  exact UnixPath.resolve_normal _ ["objects".toList, id.toList.take 2, id.toList, name]

end Paths

section Runs

variable (digest : Digest) (registry : AxStorageRegistry)

inductive Call where
  | store (capability fileName : String) (contentType : Option String) (bytes : Bytes)
  | read (capability : String) (fileRef : AxFileRef)

/-- The file name that a call hands over. -/
def Call.fileName : Call → String
  | .store _ fileName _ _ => fileName
  | .read _ fileRef => fileRef.fileName

inductive Answer where
  | stored (fileRef : AxFileRef)
  | content (bytes : Bytes)

/-- One call: its answer, and the files behind it. -/
def perform (files : Files) : Call → Stored Answer × Files
  | .store capability fileName contentType bytes =>
    match registry.get capability >>= fun storage => storage.storeBytes digest files fileName contentType bytes with
    | .ok (fileRef, files) => (.ok (.stored fileRef), files)
    | .error error => (.error error, files)
  | .read capability fileRef =>
    ((registry.get capability >>= fun storage => storage.read digest files fileRef).map .content, files)

def run (files : Files) (calls : List Call) : Files := calls.foldl (fun files call => (perform digest registry files call).2) files

/-- Every file of the first map is in the second, unchanged. -/
def Keeps (before after : Files) : Prop := ∀ place bytes, before place = some bytes → after place = some bytes

variable {digest registry}

theorem Keeps.trans {first second third : Files} (start : Keeps first second) (rest : Keeps second third) :
    Keeps first third := fun place bytes held => rest place bytes (start place bytes held)

theorem writeObject_ok {files after : Files} {place : List (List Char)} {bytes : Bytes}
    (written : writeObject files place bytes = .ok after) : after place = some bytes ∧ Keeps files after := by
  rw [writeObject] at written
  split at written
  next existing found =>
    split at written
    · cases written
    · next same =>
      cases written
      rw [not_not] at same
      exact ⟨same ▸ found, fun _ _ held => held⟩
  next missing =>
    cases written
    refine ⟨if_pos rfl, fun other content held => ?_⟩
    have apart : other ≠ place := by
      rintro rfl
      rw [missing] at held
      cases held
    exact (if_neg apart).trans held

/-- A successful store leaves the bytes where the reference leads, and changes no file. -/
theorem storeBytes_ok {storage : AxCapabilityStorage} {files after : Files} {fileName : String}
    {contentType : Option String} {bytes : Bytes} {fileRef : AxFileRef}
    (stored : storage.storeBytes digest files fileName contentType bytes = .ok (fileRef, after)) :
    ∃ path, objectPath (digest.sha256Hex bytes) fileName = .ok path ∧ validateContentType contentType = .ok () ∧
      fileRef = ⟨digest.sha256Hex bytes, storage.name, fileName, contentType, sizeOfBytes bytes⟩ ∧
      after (storage.place path) = some bytes ∧ Keeps files after := by
  rw [AxCapabilityStorage.storeBytes] at stored
  split at stored
  · cases stored
  · obtain ⟨_, stored⟩ := Outcome.bind_unit_ok.mp stored
    obtain ⟨typed, stored⟩ := Outcome.bind_unit_ok.mp stored
    dsimp only at stored
    split at stored
    · cases stored
    · obtain ⟨path, named, stored⟩ := Outcome.bind_ok.mp stored
      obtain ⟨written, here, stored⟩ := Outcome.bind_ok.mp stored
      cases stored
      exact ⟨path, named, typed, rfl, writeObject_ok here⟩

/-- One call changes no file. -/
theorem perform_keeps (files : Files) (call : Call) : Keeps files (perform digest registry files call).2 := by
  cases call with
  | store capability fileName contentType bytes =>
    rw [perform]
    split
    next fileRef after done =>
      obtain ⟨storage, _, stored⟩ := Outcome.bind_ok.mp done
      obtain ⟨_, _, _, _, _, kept⟩ := storeBytes_ok stored
      exact kept
    next => exact fun _ _ held => held
  | read capability fileRef => exact fun _ _ held => held

theorem run_keeps (files : Files) (calls : List Call) : Keeps files (run digest registry files calls) := by
  induction calls generalizing files with
  | nil => exact fun _ _ held => held
  | cons call rest ih => exact (perform_keeps files call).trans (ih _)

/-- What was stored is read, as long as its file is there. -/
theorem read_stored {storage : AxCapabilityStorage} {files : Files} {fileName : String} {contentType : Option String}
    {bytes : Bytes} {path : List Char} (readable : storage.access.canRead = true)
    (named : objectPath (digest.sha256Hex bytes) fileName = .ok path) (typed : validateContentType contentType = .ok ())
    (held : files (storage.place path) = some bytes) :
    storage.read digest files ⟨digest.sha256Hex bytes, storage.name, fileName, contentType, sizeOfBytes bytes⟩ = .ok bytes := by
  have nameOk := (objectPath_components named).2.1
  have valid : storage.validateRef ⟨digest.sha256Hex bytes, storage.name, fileName, contentType, sizeOfBytes bytes⟩ =
      .ok () := by
    simp only [AxCapabilityStorage.validateRef, ne_eq, not_true_eq_false, if_false, digest.shape, nameOk]
    exact typed
  rw [AxCapabilityStorage.read, readable]
  simp only [Bool.not_true, Bool.false_eq_true, if_false, valid, named]
  simp only [bind, Except.bind, held]
  simp [pure, Except.pure]

/-- The references of a capability are refused by every other one. -/
theorem foreign_refused (storage : AxCapabilityStorage) {files : Files} {fileRef : AxFileRef}
    (foreign : fileRef.storage ≠ storage.name) (bytes : Bytes) : storage.read digest files fileRef ≠ .ok bytes := by
  intro answered
  rw [AxCapabilityStorage.read] at answered
  split at answered
  · cases answered
  · obtain ⟨valid, _⟩ := Outcome.bind_unit_ok.mp answered
    rw [AxCapabilityStorage.validateRef, if_pos foreign] at valid
    cases valid

variable (digest registry)

/-- Stored objects are confined and never aliased, in a run from some files. -/
structure Confined (start : Files) (calls : List Call) : Prop where
  single : ∀ call ∈ calls, validateFileName call.fileName = .ok () → IsName call.fileName.toList
  distinct : ∀ first ∈ calls, ∀ second ∈ calls, ∀ id id' path path', objectPath id first.fileName = .ok path →
    objectPath id' second.fileName = .ok path' → UnixPath.components path = UnixPath.components path' →
    id = id' ∧ first.fileName = second.fileName
  below : ∀ call ∈ calls, ∀ id path, objectPath id call.fileName = .ok path → ∀ storage : AxCapabilityStorage,
    ∃ names, names ≠ [] ∧ (∀ name ∈ names, IsName name) ∧ storage.place path = storage.root ++ names
  kept : ∀ before after capability fileName contentType bytes fileRef,
    calls = before ++ .store capability fileName contentType bytes :: after →
    (perform digest registry (run digest registry start before) (.store capability fileName contentType bytes)).1 =
      .ok (.stored fileRef) →
    ∀ later, later <+: after → ∃ storage, registry.get capability = .ok storage ∧ (storage.access.canRead = true →
      storage.read digest (run digest registry start (before ++ .store capability fileName contentType bytes :: later))
        fileRef = .ok bytes)
  foreign : ∀ storage ∈ registry.capabilities, ∀ fileRef : AxFileRef, fileRef.storage ≠ storage.name →
    ∀ files bytes, storage.read digest files fileRef ≠ .ok bytes

variable {digest registry}

/-- A stored object is read back after any later calls. -/
theorem stored_kept {start : Files} {before later : List Call} {capability fileName : String}
    {contentType : Option String} {bytes : Bytes} {fileRef : AxFileRef}
    (done : (perform digest registry (run digest registry start before) (.store capability fileName contentType bytes)).1 =
      .ok (.stored fileRef)) :
    ∃ storage, registry.get capability = .ok storage ∧ (storage.access.canRead = true →
      storage.read digest (run digest registry start (before ++ .store capability fileName contentType bytes :: later))
        fileRef = .ok bytes) := by
  have behind : run digest registry start (before ++ .store capability fileName contentType bytes :: later) =
      run digest registry (perform digest registry (run digest registry start before)
        (.store capability fileName contentType bytes)).2 later := List.foldl_append
  rw [behind]
  generalize run digest registry start before = files at done
  cases answer : registry.get capability >>= fun storage =>
      storage.storeBytes digest files fileName contentType bytes with
  | error error =>
    rw [perform, answer] at done
    cases done
  | ok result =>
    obtain ⟨stored, after⟩ := result
    have performed : perform digest registry files (.store capability fileName contentType bytes) =
        (.ok (.stored stored), after) := by
      rw [perform, answer]
    rw [performed] at done ⊢
    cases done
    obtain ⟨storage, known, stored⟩ := Outcome.bind_ok.mp answer
    obtain ⟨path, named, typed, rfl, held, _⟩ := storeBytes_ok stored
    exact ⟨storage, known, fun readable =>
      read_stored readable named typed (run_keeps after later _ _ held)⟩

/-- Stored objects are confined and never aliased exactly in the runs whose accepted file names
have no slash. -/
theorem storage_confined_iff (start : Files) (calls : List Call) :
    Confined digest registry start calls ↔
      ∀ call ∈ calls, validateFileName call.fileName = .ok () → '/' ∉ call.fileName.toList := by
  constructor
  · exact fun confined call member accepted => (confined.single call member accepted).plain
  · intro plain
    refine ⟨fun call member accepted => (isName_of_accepted accepted (plain call member accepted)).1, ?_, ?_, ?_, ?_⟩
    · intro first inFirst second inSecond id id' path path' named named' same
      obtain ⟨_, accepted, components⟩ := objectPath_components named
      obtain ⟨_, accepted', components'⟩ := objectPath_components named'
      rw [components, components', (isName_of_accepted accepted (plain first inFirst accepted)).2,
        (isName_of_accepted accepted' (plain second inSecond accepted')).2] at same
      simp only [List.cons_append, List.nil_append, List.cons.injEq, Component.normal.injEq, String.toList_inj,
        and_true, true_and] at same
      exact ⟨same.2.1, same.2.2⟩
    · intro call member id path named storage
      obtain ⟨name, isName, _, place⟩ := place_objectPath named storage
      obtain ⟨idOk, _, _⟩ := objectPath_components named
      obtain ⟨whole, front⟩ := isName_of_id idOk
      refine ⟨_, List.cons_ne_nil _ _, fun part inside => ?_, place⟩
      simp only [List.mem_cons, List.not_mem_nil, or_false] at inside
      rcases inside with rfl | rfl | rfl | rfl
      · exact ⟨by decide, by decide, by decide, by decide⟩
      · exact front
      · exact whole
      · exact isName
    · intro before after capability fileName contentType bytes fileRef _ done later _
      exact stored_kept done
    · exact fun storage _ fileRef foreign files bytes => foreign_refused storage foreign bytes

/-- The digest of no bytes, for whatever bytes. -/
def emptyDigest : Digest where
  sha256Hex _ := "e3b0c44298fc1c149afbf4c8996fb92427ae41e4649b934ca495991b7852b855"
  shape _ := by decide +kernel

/-- A name with a slash behind it is accepted and leads to the object of another name. -/
theorem storage_aliased :
    ¬Confined emptyDigest ⟨[⟨"media", [], 1024, .readWrite⟩], List.nodup_singleton _⟩ (fun _ => none)
      [.store "media" "cover.png" none [], .store "media" "cover.png/" none []] := by
  intro confined
  have aliased := confined.distinct _ List.mem_cons_self _ (List.mem_cons_of_mem _ List.mem_cons_self)
    (emptyDigest.sha256Hex []) (emptyDigest.sha256Hex []) _ _ (by rfl) (by rfl) (by decide +kernel)
  exact absurd aliased.2 (by decide)

end Runs

end Axonyx.Runtime.Storage
