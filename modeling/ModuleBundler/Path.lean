import ModuleBundler.Text.Basic

/-!
Paths as text. Nothing here looks at files: joining, normalising and resolving only follow the
spelling. Exactly two slashes at the start are kept apart from one, every other run of slashes
counts as one.
-/
namespace ModuleBundler.Path

def isAbsolute (path : Text) : Bool := path.head? == some '/'

-- The part through the last slash.
def throughSlash (path : Text) : Text := (path.reverse.dropWhile (· != '/')).reverse

def basename (path : Text) : Text := (path.reverse.takeWhile (· != '/')).reverse

-- Without the slashes at its end, unless there is nothing else.
def trimSlashes (path : Text) : Text :=
  match (path.reverse.dropWhile (· == '/')).reverse with
  | [] => path
  | trimmed => trimmed

def dirname (path : Text) : Text := trimSlashes (throughSlash path)

def join (base path : Text) : Text :=
  if isAbsolute path then path
  else if base.isEmpty || base.getLast? == some '/' then base ++ path
  else base ++ '/' :: path

def components (path : Text) : List Text := Text.splitOn '/' path

-- The slashes that a normalised path begins with.
def root (path : Text) : Text :=
  match path.takeWhile (· == '/') with
  | [] => []
  | ['/', '/'] => ['/', '/']
  | _ => ['/']

def dot : Text := ['.']
def dotDot : Text := ['.', '.']

-- One more component behind those that are kept, last one first. A parent step takes one back,
-- stays at the root of an absolute path, and is kept where a relative path leaves its start.
def push (rooted : Bool) (kept : List Text) (part : Text) : List Text :=
  if part = [] || part = dot then kept
  else if part = dotDot then
    match kept with
    | [] => if rooted then [] else [dotDot]
    | last :: earlier => if last = dotDot then dotDot :: kept else earlier
  else part :: kept

def normalize (path : Text) : Text :=
  let kept := ((components path).foldl (push (isAbsolute path)) []).reverse
  match root path ++ Text.joinWith ['/'] kept with
  | [] => dot
  | normal => normal

def absolute (cwd path : Text) : Text := normalize (join cwd path)

end ModuleBundler.Path
