/-
RGit/Objects/Path.lean

Path segments and portable paths.

A `PathSegment` carries the proof that its text passed `validate`, and a
`PortablePath` the proof that its segments passed `new`, so neither can be
built around the checks.
-/
import RGit.Objects.Types

namespace RGit

/-- `PORTABLE_COMPONENT_MAX_BYTES`. -/
def portableComponentMaxBytes : Nat := 255

/-- `PORTABLE_PATH_MAX_BYTES`. -/
def portablePathMaxBytes : Nat := 1023

inductive PathError where
  | empty
  | nonNormalized
  | unsafeName
  | nonPortableCharacter
  | windowsReserved
  | segmentTooLong
  | pathTooLong
  deriving DecidableEq

/-- `is_nonportable_character`. -/
def isNonportableCharacter (c : Char) : Bool :=
  ['<', '>', ':', '"', '|', '?', '*'].contains c || c.toNat ≤ 0x1f || c.toNat == 0x7f

/-- The device names of `is_windows_reserved`. -/
def windowsReservedStems : List String :=
  ["con", "prn", "aux", "nul", "com1", "com2", "com3", "com4", "com5", "com6", "com7",
    "com8", "com9", "com¹", "com²", "com³", "lpt1", "lpt2", "lpt3", "lpt4", "lpt5", "lpt6",
    "lpt7", "lpt8", "lpt9", "lpt¹", "lpt²", "lpt³"]

/-- `is_windows_reserved`: the text before the first dot is a device name. -/
def isWindowsReserved (value : String) : Bool :=
  windowsReservedStems.contains (String.ofList (value.toList.takeWhile (· ≠ '.')))

/-- `value.trim_end_matches([' ', '.'])`. -/
def trimEndSpaceDot (value : String) : String :=
  String.ofList (value.toList.reverse.dropWhile fun c => c == ' ' || c == '.').reverse

section Segments

variable [Unicode]

/-- `portable_case_fold`. -/
def portableCaseFold (value : String) : String := Unicode.nfc (Unicode.caseFold value)

/-- The checks of `PathSegment::validate`. -/
def validateSegment (value : String) (portable : Bool) : Except PathError Unit :=
  if value = "" then .error .empty
  else if (utf8Bytes value).length > portableComponentMaxBytes then .error .segmentTooLong
  else if !isNfc value then .error .nonNormalized
  else if value = "." ∨ value = ".." ∨ value.toList.any (['\x00', '/', '\\'].contains ·) then
    .error .unsafeName
  else if portable then
    if value.toList.any isNonportableCharacter then .error .nonPortableCharacter
    else if trimEndSpaceDot value ≠ value ∨ isWindowsReserved (portableCaseFold value) then
      .error .windowsReserved
    else .ok ()
  else .ok ()

structure PathSegment where
  value : String
  valid : validateSegment value false = .ok ()

namespace PathSegment

theorem ext_value {a b : PathSegment} (h : a.value = b.value) : a = b := by
  cases a; cases b; cases h; rfl

instance : DecidableEq PathSegment := fun a b =>
  decidable_of_iff (a.value = b.value) ⟨ext_value, fun h => h ▸ rfl⟩

/-- The portable profile only adds checks. -/
theorem valid_of_portable {value : String} (h : validateSegment value true = .ok ()) :
    validateSegment value false = .ok () := by
  simp only [validateSegment, Except.ite_error_eq_ok] at h ⊢
  obtain ⟨h₁, h₂, h₃, h₄, -⟩ := h
  exact ⟨h₁, h₂, h₃, h₄, rfl⟩

/-- `PathSegment::validate`, with the profile it validates against. -/
def ofValidated (value : String) (portable : Bool) : Except PathError PathSegment :=
  match h : validateSegment value portable with
  | .error e => .error e
  | .ok () => .ok ⟨value, by
      cases portable with
      | true => exact valid_of_portable h
      | false => exact h⟩

/-- `PathSegment::new`. -/
def new (value : String) : Except PathError PathSegment := ofValidated value false

/-- `PathSegment::new_portable`. -/
def newPortable (value : String) : Except PathError PathSegment := ofValidated value true

/-- `PathSegment::ensure_portable`. -/
def ensurePortable (s : PathSegment) : Except PathError Unit := validateSegment s.value true

/-- `PathSegment::portable_case_fold`. -/
def caseFold (s : PathSegment) : String := portableCaseFold s.value

/-- `Value::from(&PathSegment)`. -/
def toValue (s : PathSegment) : Value := .text s.value

/-- `PathSegment::canonical_bytes`; the encoding exists for every segment
(`encode_toValue`), so the default is never taken. -/
def canonicalBytes (s : PathSegment) : Bytes := s.toValue.encode.toOption.getD []

theorem newPortable_eq_ok {value : String} {s : PathSegment} :
    newPortable value = .ok s ↔ s.value = value ∧ s.ensurePortable = .ok () := by
  unfold newPortable ofValidated ensurePortable
  constructor
  · intro h
    split at h
    · cases h
    · next hv => cases h; exact ⟨rfl, hv⟩
  · rintro ⟨rfl, hv⟩
    split
    · next e he => rw [hv] at he; cases he
    · rfl

end PathSegment

/-- The length check of `PortablePath::new`: bytes so far, then the segment. -/
def pathLength : Nat → List PathSegment → Except PathError Unit
  | _, [] => .ok ()
  | encodedLen, s :: rest => do
      s.ensurePortable
      let encodedLen := encodedLen + (if encodedLen ≠ 0 then 1 else 0) + (utf8Bytes s.value).length
      if encodedLen > portablePathMaxBytes then .error .pathTooLong
      else pathLength encodedLen rest

structure PortablePath where
  segments : List PathSegment
  valid : pathLength 0 segments = .ok ()

namespace PortablePath

instance : DecidableEq PortablePath := fun a b =>
  decidable_of_iff (a.segments = b.segments)
    ⟨fun h => by cases a; cases b; cases h; rfl, fun h => h ▸ rfl⟩

/-- `PortablePath::new`. -/
def new (segments : List PathSegment) : Except PathError PortablePath :=
  match h : pathLength 0 segments with
  | .error e => .error e
  | .ok () => .ok ⟨segments, h⟩

def value (p : PortablePath) : Value := .array (p.segments.map PathSegment.toValue)

theorem new_eq_ok {segments : List PathSegment} {p : PortablePath} :
    new segments = .ok p ↔ p.segments = segments := by
  unfold new
  constructor
  · intro h
    split at h
    · cases h
    · cases h; rfl
  · rintro rfl
    split
    · next e he => rw [p.valid] at he; cases he
    · rfl

/-- Every segment of a portable path is portable. -/
theorem ensurePortable_of_mem {p : PortablePath} {s : PathSegment} (h : s ∈ p.segments) :
    s.ensurePortable = .ok () := by
  have hall : ∀ {l : List PathSegment} {n : Nat}, pathLength n l = .ok () →
      ∀ s ∈ l, s.ensurePortable = .ok () := by
    intro l
    induction l with
    | nil => simp
    | cons a l ih =>
        intro n hl
        simp only [pathLength, Except.bind_unit_eq_ok, Except.ite_error_eq_ok] at hl
        exact List.forall_mem_cons.mpr ⟨hl.1, ih hl.2.2⟩
  exact hall p.valid s h

end PortablePath

end Segments

end RGit
