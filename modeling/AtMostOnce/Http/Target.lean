/-! Targets of requests. -/
namespace AtMostOnce.Http

/-- What comes before a query or a fragment. -/
def pathPart (s : List Char) : List Char := s.takeWhile fun c => c ≠ '?' && c ≠ '#'

/-- What follows the mark between a scheme and an authority. -/
def afterScheme? : List Char → Option (List Char)
  | ':' :: '/' :: '/' :: rest => some rest
  | _ :: rest => afterScheme? rest
  | [] => none

/-- The path of a target that is a path or names an authority before it. An authority alone has the
path of the root; other targets have none. -/
def targetPath? (target : String) : Option String :=
  match target.toList with
  | '/' :: rest => some (String.ofList (pathPart ('/' :: rest)))
  | s =>
    (afterScheme? s).map fun rest =>
      match rest.dropWhile fun c => c ≠ '/' && c ≠ '?' && c ≠ '#' with
      | '/' :: path => String.ofList (pathPart ('/' :: path))
      | _ => "/"

end AtMostOnce.Http
