import Mathlib.Data.List.Basic

/-! Paths as texts, in the grammar of POSIX, and their lexically normal form. Nothing here
looks at a file system: a path is taken apart at its slashes, an empty name or a dot is
dropped, and a double dot takes the name before it along. -/
namespace LexicalPath

open List

abbrev dot : List Char := ['.']
abbrev dotDot : List Char := ['.', '.']

variable (text : List Char)

def isAbsolute : Bool := text.head? = some '/'
def hasFilename : Bool := text.getLast?.any (fun c => c ≠ '/')

def append (a b : List Char) : List Char :=
  if isAbsolute b then b else if hasFilename a then a ++ '/' :: b else a ++ b

def push (absolute : Bool) (kept : List (List Char)) (name : List Char) : List (List Char) :=
  if name = [] ∨ name = dot then kept
  else if name = dotDot then
    match kept with
    | [] => if absolute then [] else [dotDot]
    | top :: rest => if top = dotDot then dotDot :: top :: rest else rest
  else name :: kept

/-- A path that ends in a directory keeps its last slash, except behind a double dot. -/
def render (absolute : Bool) (kept : List (List Char)) (directory : Bool) : List Char :=
  let root := if absolute then ['/'] else []
  match kept with
  | [] => if absolute then root else dot
  | top :: _ =>
    let text := kept.reverse.flatMap (fun name => name ++ ['/'])
    root ++ if directory && top ≠ dotDot then text else text.dropLast

def lexicallyNormal : List Char :=
  if text = [] then []
  else
    let names := text.splitOn '/'
    render (isAbsolute text) (names.foldl (push (isAbsolute text)) [])
      (names.getLast?.any (fun name => name = [] ∨ name = dot ∨ name = dotDot))

def fileTail (first second name : List Char) : List Char :=
  if name = [] ∨ name = dot then first ++ '/' :: second ++ ['/']
  else if name = dotDot then first ++ ['/']
  else first ++ '/' :: second ++ '/' :: name

structure Plain (name : List Char) : Prop where
  nonempty : name ≠ []
  noSlash : '/' ∉ name
  notDot : name ≠ dot
  notDotDot : name ≠ dotDot

variable {absolute : Bool} {kept : List (List Char)} {first second name : List Char}

theorem splitOn_noSlash (noSlash : '/' ∉ name) : name.splitOn '/' = [name] := by
  have apart : ∀ part ∈ [name], '/' ∉ part := by simpa using noSlash
  have back := splitOn_intercalate '/' apart (cons_ne_nil name [])
  rwa [intercalate_singleton] at back

theorem push_plain (plain : Plain name) : push absolute kept name = name :: kept := by
  simp [push, plain.nonempty, plain.notDot, plain.notDotDot]

theorem isAbsolute_append (front : List Char) {rest : List Char} (relative : isAbsolute rest = false) :
    isAbsolute (front ++ rest) = isAbsolute front := by
  cases front with
  | nil => exact relative
  | cons c front => rfl

theorem relative_of_noSlash (noSlash : '/' ∉ name) : isAbsolute name = false := by
  cases name with
  | nil => rfl
  | cons c name =>
    have other : c ≠ '/' := fun same => noSlash (same ▸ mem_cons_self)
    simp [isAbsolute, other]

theorem Plain.relative (plain : Plain name) (rest : List Char) : isAbsolute (name ++ rest) = false := by
  rw [isAbsolute, head?_append_of_ne_nil _ plain.nonempty]
  exact relative_of_noSlash plain.noSlash

theorem splitOn_front {front : List Char} (closed : hasFilename front = false) :
    ∃ names, ∀ rest, (front ++ rest).splitOn '/' = names ++ rest.splitOn '/' := by
  rcases eq_nil_or_concat front with rfl | ⟨body, c, rfl⟩
  · exact ⟨[], fun rest => rfl⟩
  · have slash : c = '/' := by simpa [hasFilename] using closed
    refine ⟨body.splitOn '/', fun rest => ?_⟩
    rw [slash, concat_eq_append, append_assoc]
    exact splitOn_append_cons_self body rest

theorem render_tail (first_plain : Plain first) (second_plain : Plain second) :
    render absolute (push absolute (second :: first :: kept) name) (name = [] ∨ name = dot ∨ name = dotDot) =
      ((if absolute then ['/'] else []) ++ kept.reverse.flatMap (fun name => name ++ ['/'])) ++
        fileTail first second name := by
  by_cases skipped : name = [] ∨ name = dot
  · have directory : (name = [] ∨ name = dot ∨ name = dotDot) := by tauto
    simp [push, render, fileTail, skipped, directory, second_plain.notDotDot]
  · by_cases up : name = dotDot
    · simp [push, render, fileTail, up, second_plain.notDotDot, first_plain.notDotDot]
    · have text : (name :: second :: first :: kept).reverse.flatMap (fun name => name ++ ['/']) =
          kept.reverse.flatMap (fun name => name ++ ['/']) ++ (first ++ '/' :: second ++ '/' :: name) ++ ['/'] := by
        simp
      simp only [push, render, fileTail, skipped, up, or_false, if_false, decide_false, Bool.false_and,
        Bool.false_eq_true, text, dropLast_concat]
      exact (append_assoc _ _ _).symm

/-- Two plain directories and a file behind a fixed directory: the normal form has a fixed
text in front. -/
theorem lexicallyNormal_tail {front : List Char} (closed : hasFilename front = false) :
    ∃ lead, ∀ first second name, Plain first → Plain second → '/' ∉ name →
      lexicallyNormal (front ++ (first ++ '/' :: (second ++ '/' :: name))) = lead ++ fileTail first second name := by
  obtain ⟨names, split⟩ := splitOn_front closed
  refine ⟨(if isAbsolute front then ['/'] else []) ++
    (names.foldl (push (isAbsolute front)) []).reverse.flatMap (fun name => name ++ ['/']), ?_⟩
  intro first second name first_plain second_plain noSlash
  have relative := isAbsolute_append front (first_plain.relative ('/' :: (second ++ '/' :: name)))
  have parts : (front ++ (first ++ '/' :: (second ++ '/' :: name))).splitOn '/' = names ++ [first, second, name] := by
    rw [split, splitOn_append_cons_self, splitOn_append_cons_self, splitOn_noSlash first_plain.noSlash,
      splitOn_noSlash second_plain.noSlash, splitOn_noSlash noSlash]
    rfl
  have nonempty : front ++ (first ++ '/' :: (second ++ '/' :: name)) ≠ [] := by simp
  rw [lexicallyNormal, if_neg nonempty, parts, relative, ← render_tail first_plain second_plain]
  simp [foldl_append, push_plain first_plain, push_plain second_plain]

theorem splitOn_fileTail (first_plain : Plain first) (second_plain : Plain second) (noSlash : '/' ∉ name) :
    (fileTail first second name).splitOn '/' =
      if name = [] ∨ name = dot then [first, second, []] else if name = dotDot then [first, []]
        else [first, second, name] := by
  have first_split := splitOn_noSlash first_plain.noSlash
  have second_split := splitOn_noSlash second_plain.noSlash
  rw [fileTail]
  split
  · rw [append_assoc, cons_append, splitOn_append_cons_self, splitOn_append_cons_self, first_split,
      second_split]
    rfl
  · split
    · rw [splitOn_append_cons_self, first_split]
      rfl
    · rw [append_assoc, cons_append, splitOn_append_cons_self, splitOn_append_cons_self,
        first_split, second_split, splitOn_noSlash noSlash]
      rfl

/-- The tail gives the file away, and its directories unless the file is a double dot. -/
theorem fileTail_inj {first' second' name' : List Char} (first_plain : Plain first)
    (second_plain : Plain second) (first_plain' : Plain first') (second_plain' : Plain second')
    (noSlash : '/' ∉ name) (noSlash' : '/' ∉ name') (nonempty : name ≠ []) (nonempty' : name' ≠ [])
    (same : fileTail first second name = fileTail first' second' name') :
    name = name' ∧ first = first' ∧ (name ≠ dotDot → second = second') := by
  have parts := congrArg (splitOn '/') same
  rw [splitOn_fileTail first_plain second_plain noSlash, splitOn_fileTail first_plain' second_plain' noSlash'] at parts
  simp only [nonempty, nonempty', false_or] at parts
  grind

/-- What a relative path is put behind when it is appended. -/
theorem append_front (base : List Char) :
    ∃ front, hasFilename front = false ∧ ∀ rest, isAbsolute rest = false → append base rest = front ++ rest := by
  cases named : hasFilename base with
  | false => exact ⟨base, named, fun rest relative => by simp [append, relative, named]⟩
  | true => exact ⟨base ++ ['/'], by simp [hasFilename], fun rest relative => by simp [append, relative, named]⟩

theorem append_plain (first : List Char) (plain : Plain second) (noSlash : '/' ∉ name) :
    append (first ++ second) name = first ++ (second ++ '/' :: name) := by
  have named : hasFilename (first ++ second) = true := by
    obtain ⟨body, c, rfl⟩ := (eq_nil_or_concat second).resolve_left plain.nonempty
    have other : c ≠ '/' := fun same => plain.noSlash (by simp [same])
    simp [hasFilename, other]
  simp [append, relative_of_noSlash noSlash, named]

end LexicalPath
