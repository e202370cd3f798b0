import PlsqlNav.Outline.Scan
import PlsqlNav.Path

/-! Outlines that are kept from one load to the next. A file whose text has not changed is not read
anew, and nothing is dropped unless told so. Texts are told apart by a digest of them. -/
namespace PlsqlNav

/-- An outline and the number of the reading that made it. -/
structure Kept where
  outline : Outline
  reading : Nat
  deriving DecidableEq, Repr

namespace DigestCache

structure Entry (δ : Type) where
  path : Path
  digest : δ
  kept : Kept
  deriving DecidableEq, Repr

end DigestCache

/-- At most one entry for each path, and how many texts have been read so far. -/
structure DigestCache (δ : Type) where
  entries : List (DigestCache.Entry δ)
  readings : Nat
  deriving DecidableEq, Repr

namespace DigestCache
variable {δ : Type}

def empty : DigestCache δ := ⟨[], 0⟩

def find? (c : DigestCache δ) (path : Path) : Option (Entry δ) :=
  c.entries.find? fun e => e.path.same path

/-- Puts an entry in the place of the one for the same path, whose spelling stays. -/
def put (entry : Entry δ) : List (Entry δ) → List (Entry δ)
  | [] => [entry]
  | e :: es =>
    if e.path.same entry.path then { entry with path := e.path } :: es else e :: put entry es

/-- The outline of a file, read only when the path is new or the digest of its text has changed. -/
def get [DecidableEq δ] (digest : String → δ) (c : DigestCache δ) (path : Path) (text : String) :
    Kept × DigestCache δ :=
  let kept : Kept := ⟨Outline.ofText path.text text, c.readings⟩
  let read : DigestCache δ := ⟨put ⟨path, digest text, kept⟩ c.entries, c.readings + 1⟩
  match c.find? path with
  | some e => if e.digest = digest text then (e.kept, c) else (kept, read)
  | none => (kept, read)

def retain (c : DigestCache δ) (keep : Path → Bool) : DigestCache δ :=
  { c with entries := c.entries.filter fun e => keep e.path }

def clear (c : DigestCache δ) : DigestCache δ := { c with entries := [] }

def size (c : DigestCache δ) : Nat := c.entries.length

end DigestCache

/-- The cache of a workspace, with the texts for their own digests. -/
abbrev Cache := DigestCache String

namespace Cache

def empty : Cache := DigestCache.empty

def get (c : Cache) (path : Path) (text : String) : Kept × Cache := DigestCache.get id c path text

end Cache

end PlsqlNav
