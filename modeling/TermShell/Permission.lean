import TermShell.Text.Split

/-!
# Permissions

Two roles, the administrator and the user, may each execute, write or read a file or
directory. A permission set says which of these six things is allowed.

Its text form is six characters, `1` for allowed and `0` for not, always in the order
of `Permission.all`: the administrator's three, then the user's, each in the order
execute, write, read. `PermissionSet.parse` accepts exactly these texts, so reading and
writing are inverse to one another.
-/

namespace TermShell

/-- On whose behalf something is done. -/
inductive Role where
  | admin
  | user
  deriving DecidableEq

/-- What is done to a file or directory. -/
inductive Access where
  | execute
  | write
  | read
  deriving DecidableEq

/-- One thing that a permission set allows or not. -/
structure Permission where
  role : Role
  access : Access
  deriving DecidableEq

namespace Permission

/-- The six permissions in the order in which they are written. -/
def all : List Permission :=
  [⟨.admin, .execute⟩, ⟨.admin, .write⟩, ⟨.admin, .read⟩,
   ⟨.user, .execute⟩, ⟨.user, .write⟩, ⟨.user, .read⟩]

/-- The place of a permission in the written order. -/
def index : Permission → Nat
  | ⟨.admin, .execute⟩ => 0
  | ⟨.admin, .write⟩ => 1
  | ⟨.admin, .read⟩ => 2
  | ⟨.user, .execute⟩ => 3
  | ⟨.user, .write⟩ => 4
  | ⟨.user, .read⟩ => 5

/-- The name of a permission. -/
def label (p : Permission) : String :=
  (match p.role with
    | .admin => "admin "
    | .user => "user ") ++
  (match p.access with
    | .execute => "executable"
    | .write => "write"
    | .read => "read")

/-- Is this the permission to execute, for either role? -/
def isExecutable (p : Permission) : Bool := p.access = .execute

theorem mem_all (p : Permission) : p ∈ all := by
  rcases p with ⟨_ | _, _ | _ | _⟩ <;> decide

end Permission

/-- What one role may do. -/
structure Grant where
  execute : Bool
  write : Bool
  read : Bool
  deriving DecidableEq

/-- What each role may do. -/
structure PermissionSet where
  admin : Grant
  user : Grant
  deriving DecidableEq

/-- A text that is no permission set. -/
structure MalformedPermissions where
  text : String
  deriving DecidableEq

/-- The complaint about a malformed permission set quotes it. -/
def MalformedPermissions.message (e : MalformedPermissions) : String :=
  "\"" ++ e.text ++ "\" is not a valid permission set"

namespace PermissionSet

/-- Is the permission in the set? -/
def contains (s : PermissionSet) : Permission → Bool
  | ⟨.admin, .execute⟩ => s.admin.execute
  | ⟨.admin, .write⟩ => s.admin.write
  | ⟨.admin, .read⟩ => s.admin.read
  | ⟨.user, .execute⟩ => s.user.execute
  | ⟨.user, .write⟩ => s.user.write
  | ⟨.user, .read⟩ => s.user.read

/-- The set in which one permission has been settled. -/
def assign (s : PermissionSet) (p : Permission) (allowed : Bool) : PermissionSet :=
  match p with
  | ⟨.admin, .execute⟩ => { s with admin.execute := allowed }
  | ⟨.admin, .write⟩ => { s with admin.write := allowed }
  | ⟨.admin, .read⟩ => { s with admin.read := allowed }
  | ⟨.user, .execute⟩ => { s with user.execute := allowed }
  | ⟨.user, .write⟩ => { s with user.write := allowed }
  | ⟨.user, .read⟩ => { s with user.read := allowed }

/-- The set with one permission added. -/
def insert (s : PermissionSet) (p : Permission) : PermissionSet := s.assign p true

/-- The set with one permission taken away. -/
def erase (s : PermissionSet) (p : Permission) : PermissionSet := s.assign p false

theorem contains_assign (s : PermissionSet) (p q : Permission) (b : Bool) :
    (s.assign p b).contains q = if q = p then b else s.contains q := by
  rcases p with ⟨_ | _, _ | _ | _⟩ <;> rcases q with ⟨_ | _, _ | _ | _⟩ <;>
    simp [assign, contains]

/-- Two sets that allow the same are equal. -/
theorem ext_contains {s t : PermissionSet} (h : ∀ p, s.contains p = t.contains p) : s = t := by
  rcases s with ⟨⟨_, _, _⟩, ⟨_, _, _⟩⟩
  rcases t with ⟨⟨_, _, _⟩, ⟨_, _, _⟩⟩
  have h1 := h ⟨.admin, .execute⟩
  have h2 := h ⟨.admin, .write⟩
  have h3 := h ⟨.admin, .read⟩
  have h4 := h ⟨.user, .execute⟩
  have h5 := h ⟨.user, .write⟩
  have h6 := h ⟨.user, .read⟩
  simp only [contains] at h1 h2 h3 h4 h5 h6
  simp [h1, h2, h3, h4, h5, h6]

/-! ## Sets in use -/

/-- Nothing is allowed. -/
def none : PermissionSet := ⟨⟨false, false, false⟩, ⟨false, false, false⟩⟩

/-- The set that holds the listed permissions. -/
def ofList (ps : List Permission) : PermissionSet := ps.foldl insert none

/-- What the user gets on making a file or directory: to read and write it. -/
def userDefault : PermissionSet := ofList [⟨.user, .read⟩, ⟨.user, .write⟩]

/-- Only the administrator reads and writes. -/
def adminReadWrite : PermissionSet := ofList [⟨.admin, .read⟩, ⟨.admin, .write⟩]

/-- The administrator reads and writes, the user reads. -/
def userRead : PermissionSet := adminReadWrite.insert ⟨.user, .read⟩

/-- Both roles read and write. -/
def userReadWrite : PermissionSet := userRead.insert ⟨.user, .write⟩

/-- A program: both roles execute and read it, the administrator writes it. -/
def userExecutable : PermissionSet :=
  (userRead.insert ⟨.admin, .execute⟩).insert ⟨.user, .execute⟩

/-- The permissions in the set, in written order. -/
def toList (s : PermissionSet) : List Permission := Permission.all.filter s.contains

/-- Does the set let either role execute? -/
def isExecutable (s : PermissionSet) : Bool := s.toList.any Permission.isExecutable

/-- Does the set allow nothing? -/
def isEmpty (s : PermissionSet) : Bool := s.toList.isEmpty

/-- May the user read? -/
def userReads (s : PermissionSet) : Bool := s.contains ⟨.user, .read⟩

/-- May the user write? -/
def userWrites (s : PermissionSet) : Bool := s.contains ⟨.user, .write⟩

/-! ## Texts and numbers -/

/-- What one character of the text form says. -/
def bit? (c : Char) : Option Bool :=
  if c = '1' then some true else if c = '0' then some false else Option.none

/-- Reads the text form: exactly six characters, each `0` or `1`. -/
def parse (text : String) : Except MalformedPermissions PermissionSet :=
  match text.toList.mapM bit? with
  | some [ax, aw, ar, ux, uw, ur] => .ok ⟨⟨ax, aw, ar⟩, ⟨ux, uw, ur⟩⟩
  | _ => .error ⟨text⟩

/-- The text form. -/
def bits (s : PermissionSet) : String :=
  String.ofList (Permission.all.map fun p => if s.contains p then '1' else '0')

theorem parse_bits (s : PermissionSet) : parse s.bits = .ok s := by
  rcases s with ⟨⟨_ | _, _ | _, _ | _⟩, ⟨_ | _, _ | _, _ | _⟩⟩ <;> rfl

/-- The set as a number: a permission counts two to the power of its place. -/
def code (s : PermissionSet) : Nat :=
  (Permission.all.map fun p => if s.contains p then 1 <<< p.index else 0).foldr (· + ·) 0

/-- The set that a number below sixty-four stands for. -/
def ofCode? (n : Nat) : Option PermissionSet :=
  if n < 64 then some (ofList (Permission.all.filter fun p => n.testBit p.index)) else Option.none

theorem ofCode?_code (s : PermissionSet) : ofCode? s.code = some s := by
  rcases s with ⟨⟨_ | _, _ | _, _ | _⟩, ⟨_ | _, _ | _, _ | _⟩⟩ <;> decide

/-- Joins quoted phrases as a sentence does: two by "and", more by commas and a
last "and". No phrase at all reads as "none". -/
def enumerate : List String → String
  | [] => "\"none\""
  | [only] => only
  | [first, second] => first ++ " and " ++ second
  | phrases => String.intercalate ", " phrases.dropLast ++ ", and " ++ phrases.getLastD ""

/-- The permissions in words, each in quotes. -/
def describe (s : PermissionSet) : String :=
  enumerate (s.toList.map fun p => "\"" ++ p.label ++ "\"")

end PermissionSet

end TermShell
