import Grex.GoURL
import Grex.Lines
import Mathlib.Tactic.SplitIfs

/-!
Request routers. A pattern is a path, perhaps for one method; a segment of it stands for
itself or for any one segment, and a pattern that ends in a slash matches everything
below it. A path is looked up segment by segment: the patterns that name the segment
come before those that take any, and these before those that end here. Paths are
cleaned before they are looked up, and a request for another spelling of its path is
sent there. Patterns with a host or with a named rest of the path are not treated.
-/

namespace Grex.ServeMux

open GoURL Lines

def space : UInt8 := 0x20

def dot : UInt8 := 0x2E

/-! ### Patterns -/

inductive Segment
  | literal (s : Bytes)
  | wildcard
  deriving DecidableEq

structure Pattern where
  method : Option Bytes
  segments : List Segment
  multi : Bool
  deriving DecidableEq

/-- A text that is not well encoded stands for itself. -/
def pathUnescape (s : Bytes) : Bytes := (unescape s).getD s

/-- A name in braces is a wildcard, and a dollar sign in braces the end of the path. -/
def parseSegment (s : Bytes) : Segment :=
  if s = ascii "\x7b$\x7d" then .literal [slash]
  else if s.head? = some 0x7B ∧ s.getLast? = some 0x7D then .wildcard
  else .literal (pathUnescape s)

def parsePath (method : Option Bytes) (path : Bytes) : Pattern :=
  let parts := lines slash (path.drop 1)
  if parts.getLast? = some [] then ⟨method, parts.dropLast.map parseSegment, true⟩
  else ⟨method, parts.map parseSegment, false⟩

def parsePattern (text : String) : Pattern :=
  match cut space (ascii text) with
  | (path, none) => parsePath none path
  | (method, some path) => parsePath (some method) path

/-- The segments of a requested path; the last of a path that ends in a slash is the
slash. -/
def pathSegments : Bytes → List Bytes
  | [] => []
  | _ :: path =>
      let parts := (lines slash path).map pathUnescape
      if parts.getLast? = some [] then parts.dropLast ++ [[slash]] else parts

/-! ### Matching -/

/-- What of a pattern is left to match, and what it leads to. -/
structure Branch (α : Type*) where
  segments : List Segment
  multi : Bool
  target : α

variable {α : Type*}

/-- The pattern of the branch matches the segments of a path. A segment that is a slash
is none that a wildcard takes. -/
def Matches : List Segment → Bool → List Bytes → Prop
  | [], false, path => path = []
  | [], true, path => path ≠ []
  | _ :: _, _, [] => False
  | .literal s :: p, multi, seg :: path => s = seg ∧ Matches p multi path
  | .wildcard :: p, multi, seg :: path => seg ≠ [slash] ∧ Matches p multi path

instance decidableMatches : ∀ (p : List Segment) (multi : Bool) (path : List Bytes),
    Decidable (Matches p multi path)
  | [], false, path => inferInstanceAs (Decidable (path = []))
  | [], true, path => inferInstanceAs (Decidable (path ≠ []))
  | _ :: _, _, [] => inferInstanceAs (Decidable False)
  | .literal s :: p, multi, seg :: path =>
      have := decidableMatches p multi path
      inferInstanceAs (Decidable (s = seg ∧ Matches p multi path))
  | .wildcard :: p, multi, seg :: path =>
      have := decidableMatches p multi path
      inferInstanceAs (Decidable (seg ≠ [slash] ∧ Matches p multi path))

/-- The branch after one of its segments. -/
def Branch.after (s : Segment) (b : Branch α) : Option (Branch α) :=
  match b.segments with
  | [] => none
  | t :: p => if t = s then some ⟨p, b.multi, b.target⟩ else none

/-- The target of a branch that ends here. -/
def Branch.ending (multi : Bool) (b : Branch α) : Option α :=
  if b.segments = [] ∧ b.multi = multi then some b.target else none

/-- The lookup in the tree of the patterns: among the branches that are left, those that
name the next segment, those that take any, and those that end in a slash. -/
def matchPath (branches : List (Branch α)) : List Bytes → Option α
  | [] => branches.findSome? (Branch.ending false)
  | seg :: path =>
      (matchPath (branches.filterMap (Branch.after (.literal seg))) path).or
        ((if seg = [slash] then none
          else matchPath (branches.filterMap (Branch.after .wildcard)) path).or
          (branches.findSome? (Branch.ending true)))

def get : Bytes := ascii "GET"

def head : Bytes := ascii "HEAD"

def connect : Bytes := ascii "CONNECT"

/-- A pattern is for its method; one for GET is for HEAD as well. -/
def Takes (p : Pattern) (method : Bytes) : Prop :=
  p.method = none ∨ p.method = some method ∨ method = head ∧ p.method = some get

variable {table : List (Pattern × α)} {r : Pattern × α} {method path : Bytes}

def branches (table : List (Pattern × α)) (method : Option Bytes) : List (Branch (Pattern × α)) :=
  (table.filter fun r => r.1.method = method).map fun r => ⟨r.1.segments, r.1.multi, r⟩

/-- The lookup of a request: patterns for its method come before those for any. -/
def matchTable (table : List (Pattern × α)) (method path : Bytes) : Option (Pattern × α) :=
  (matchPath (branches table (some method)) (pathSegments path)).or
    ((if method = head then matchPath (branches table (some get)) (pathSegments path)
      else none).or
      (matchPath (branches table none) (pathSegments path)))

/-- The route takes the request. -/
def Serves (r : Pattern × α) (method path : Bytes) : Prop :=
  Takes r.1 method ∧ Matches r.1.segments r.1.multi (pathSegments path)

/-- The path without empty and dot segments, each double dot with the segment before it
taken away. -/
def clean (path : Bytes) : Bytes :=
  slash :: unlines slash ((lines slash path).foldl (fun kept s =>
    if s = [] ∨ s = [dot] then kept else if s = [dot, dot] then kept.dropLast else kept ++ [s]) [])

def cleanPath (path : Bytes) : Bytes :=
  if path = [] then [slash]
  else
    let rooted := if path.head? = some slash then path else slash :: path
    if rooted.getLast? = some slash ∧ clean rooted ≠ [slash] then clean rooted ++ [slash]
    else clean rooted

/-- The pattern does not match only by what is below it. -/
def exactMatch (found : Option (Pattern × α)) (path : Bytes) : Bool :=
  match found with
  | none => false
  | some r => !r.1.multi ||
      (path.getLast? = some slash && r.1.segments.length + 1 == path.count slash)

/-- The path is one that another slash makes exact. -/
def redirects (table : List (Pattern × α)) (method path : Bytes) : Bool :=
  !exactMatch (matchTable table method path) path && path.getLast? != some slash && path != [] &&
    exactMatch (matchTable table method (path ++ [slash])) (path ++ [slash])

/-- Another method of the path, or of the path with a slash, has a route. -/
def otherMethod (table : List (Pattern × α)) (path : Bytes) : Bool :=
  table.any fun r => r.1.method.isSome && (decide (Matches r.1.segments r.1.multi (pathSegments path)) ||
    (path.getLast? != some slash &&
      decide (Matches r.1.segments r.1.multi (pathSegments (path ++ [slash])))))

inductive Outcome (α : Type*)
  | handler (a : α)
  | redirect
  | methodNotAllowed
  | notFound
  deriving DecidableEq

/-- The handler of a request. The path of a CONNECT request is taken as it is. -/
def findHandler (table : List (Pattern × α)) (method escapedPath : Bytes) : Outcome α :=
  let path := if method = connect then escapedPath else cleanPath escapedPath
  if redirects table method path then .redirect
  else if path ≠ escapedPath then .redirect
  else
    match matchTable table method path with
    | some r => .handler r.2
    | none => if otherMethod table path then .methodNotAllowed else .notFound

section Map

variable {β : Type*} (f : α → β)

def Branch.map (f : α → β) (b : Branch α) : Branch β := ⟨b.segments, b.multi, f b.target⟩

def Outcome.map (f : α → β) : Outcome α → Outcome β
  | handler a => handler (f a)
  | redirect => redirect
  | methodNotAllowed => methodNotAllowed
  | notFound => notFound

theorem after_map (s : Segment) (b : Branch α) : (b.map f).after s = (b.after s).map (Branch.map f) := by
  obtain ⟨p, multi, a⟩ := b
  cases p with
  | nil => rfl
  | cons t p =>
    by_cases hts : t = s
    · simp [Branch.after, Branch.map, hts]
    · simp [Branch.after, Branch.map, hts]

theorem ending_map (multi : Bool) (b : Branch α) : (b.map f).ending multi = (b.ending multi).map f := by
  unfold Branch.ending Branch.map
  split_ifs <;> rfl

theorem findSome_ending_map (multi : Bool) (bs : List (Branch α)) :
    (bs.map (Branch.map f)).findSome? (Branch.ending multi) =
      (bs.findSome? (Branch.ending multi)).map f := by
  rw [List.findSome?_map, List.map_findSome?]
  congr 1
  funext b
  exact ending_map f multi b

theorem filterMap_after_map (s : Segment) (bs : List (Branch α)) :
    (bs.map (Branch.map f)).filterMap (Branch.after s) =
      (bs.filterMap (Branch.after s)).map (Branch.map f) := by
  rw [List.filterMap_map, List.map_filterMap]
  congr 1
  funext b
  exact after_map f s b

/-- The lookup does not depend on the targets. -/
theorem matchPath_map (bs : List (Branch α)) (segs : List Bytes) :
    matchPath (bs.map (Branch.map f)) segs = (matchPath bs segs).map f := by
  induction segs generalizing bs with
  | nil => exact findSome_ending_map f false bs
  | cons seg segs ih =>
    simp only [matchPath, filterMap_after_map, ih, findSome_ending_map, Option.map_or]
    split_ifs <;> rfl

/-- The table with other targets. -/
def mapTable (f : α → β) (table : List (Pattern × α)) : List (Pattern × β) :=
  table.map fun r => (r.1, f r.2)

theorem branches_mapTable (m : Option Bytes) : branches (mapTable f table) m =
    (branches table m).map (Branch.map fun r => (r.1, f r.2)) := by
  simp only [branches, mapTable, List.filter_map, List.map_map]
  rfl

theorem matchTable_mapTable (method path : Bytes) : matchTable (mapTable f table) method path =
    (matchTable table method path).map fun r => (r.1, f r.2) := by
  simp only [matchTable, branches_mapTable, matchPath_map, Option.map_or]
  split_ifs <;> rfl

theorem exactMatch_map (found : Option (Pattern × α)) (path : Bytes) :
    exactMatch (found.map fun r => (r.1, f r.2)) path = exactMatch found path := by
  cases found <;> rfl

theorem redirects_mapTable (method path : Bytes) :
    redirects (mapTable f table) method path = redirects table method path := by
  unfold redirects
  simp only [matchTable_mapTable, exactMatch_map]

theorem otherMethod_mapTable (path : Bytes) :
    otherMethod (mapTable f table) path = otherMethod table path := by
  unfold otherMethod mapTable
  rw [List.any_map]
  rfl

/-- The handler found in a table with other targets is the other target of the handler. -/
theorem findHandler_mapTable (method path : Bytes) :
    findHandler (mapTable f table) method path = (findHandler table method path).map f := by
  unfold findHandler
  simp only [redirects_mapTable, matchTable_mapTable, otherMethod_mapTable]
  generalize (if method = connect then path else cleanPath path) = cleaned
  by_cases hredirects : redirects table method cleaned = true
  · rw [if_pos hredirects, if_pos hredirects]
    rfl
  · rw [if_neg hredirects, if_neg hredirects]
    by_cases hclean : cleaned = path
    · rw [if_neg (not_not.mpr hclean), if_neg (not_not.mpr hclean)]
      cases matchTable table method cleaned with
      | some r => rfl
      | none => cases otherMethod table cleaned <;> rfl
    · rw [if_pos hclean, if_pos hclean]
      rfl

end Map

end Grex.ServeMux
