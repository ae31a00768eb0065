/-!
# Paths as text

A path is read as segments between `/` and `\`. `Route` is what a path means: whether it starts at
the root, how many steps up it begins with, and the names it goes down. `normalize` writes that
meaning, so two paths with one meaning have one normal form.

`join` and `isUnder` work on the text of a path: `join` appends one path to another, and `isUnder`
compares whole components, so `views2/x` is not under `views`.
-/

namespace Templating.Path

/-- The two characters that separate segments. -/
def isSlash (c : Char) : Bool :=
  c = '/' || c = '\\'

/-! ## What a path means -/

/-- The meaning of a path. -/
structure Route where
  /-- The path starts at the root. -/
  absolute : Bool
  /-- The steps up at its start; none when the path is absolute. -/
  ups : Nat := 0
  /-- The names that it goes down behind them. -/
  names : List (List Char) := []
  deriving DecidableEq, Repr

namespace Route

/-- Goes on by one segment: nothing for an empty segment and `.`, one name less for `..`, or a
step up when there is no name, which does not lead out of the root. -/
def step (route : Route) (segment : List Char) : Route :=
  if segment = [] ∨ segment = ['.'] then route
  else if segment = ['.', '.'] then
    if !route.names.isEmpty then { route with names := route.names.dropLast }
    else if route.absolute then route
    else { route with ups := route.ups + 1 }
  else { route with names := route.names ++ [segment] }

/-- The meaning of a path. -/
def ofText (text : List Char) : Route :=
  (text.splitOnP isSlash).foldl step ⟨text.head?.any isSlash, 0, []⟩

/-- The segments that a route is written with. -/
def segments (route : Route) : List (List Char) :=
  List.replicate route.ups ['.', '.'] ++ route.names

/-- The normal form of a path with this meaning. -/
def text (route : Route) : List Char :=
  (if route.absolute then ['/'] else []) ++ ['/'].intercalate route.segments

end Route

/-- The normal form of a path: `/` between segments, no empty or `.` segments, and `..` only
where there is nothing left to step out of. -/
def normalize (path : String) : String :=
  String.ofList (Route.ofText path.toList).text

/-! ## Paths as the file system reads them -/

/-- Appends a path to a base. An absolute path replaces the base. -/
def join (base path : String) : String :=
  if path.toList.head? = some '/' then path
  else if base.toList.getLast?.any (· ≠ '/') then base ++ "/" ++ path
  else base ++ path

/-- The root, if the path starts there, and the segments of the path. -/
def components (path : String) : List (List Char) :=
  (if path.toList.head? = some '/' then [['/']] else []) ++
    (path.toList.splitOn '/').filter (!·.isEmpty)

/-- The paths of the folders that a path is in, the innermost first and the starting point left
out. -/
def parents (path : String) : List String :=
  let absolute := path.toList.head? = some '/'
  let pieces := (path.toList.splitOn '/').filter (!·.isEmpty)
  let here := if !absolute && pieces.head? = some ['.'] then [['.']] else []
  let names := here ++ pieces.filter (· ≠ ['.'])
  let outer := (List.range names.length).reverse.map fun count =>
    (if absolute then ['/'] else []) ++ ['/'].intercalate (names.take count)
  (outer.filter (!·.isEmpty)).map String.ofList

/-- Whether the components of `base` are the first components of `path`. -/
def isUnder (path base : String) : Bool :=
  (components base).isPrefixOf (components path)

/-! ## Names of templates -/

/-- Whether a name starts with a scheme, such as `app:` or `https:`. -/
def hasScheme (name : String) : Bool :=
  match name.toList.takeWhile (· ≠ ':') with
  | [] => false
  | first :: rest =>
    name.toList.contains ':' && first.isAlpha &&
      rest.all fun c => c.isAlphanum || c = '+' || c = '.' || c = '-'

/-- The name of a template that another one refers to. A name with a slash or a scheme is kept,
any other stands beside the referring template. -/
def referredName (name referring : String) : String :=
  if name.toList.any isSlash || hasScheme name then name
  else normalize (referring ++ "/../" ++ name)

/-- Whether a name ends in a dot and the extension. -/
def hasExtension (extension name : String) : Bool :=
  ('.' :: extension.toList).isSuffixOf name.toList

end Templating.Path
