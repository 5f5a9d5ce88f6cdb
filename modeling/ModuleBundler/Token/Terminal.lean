import ModuleBundler.Text.Basic

/-!
The terminals of a module file: the words and marks that declarations are made of, the three kinds
of brackets, and the opaque leaves that all other code consists of.
-/
namespace ModuleBundler

inductive Bracket where
  | brace | paren | square
  deriving DecidableEq, Repr

namespace Bracket

def opening : Bracket → Char
  | brace => '{'
  | paren => '('
  | square => '['

def closing : Bracket → Char
  | brace => '}'
  | paren => ')'
  | square => ']'

-- The name of the group in a displayed tree.
def groupName : Bracket → String
  | brace => "brace"
  | paren => "paren"
  | square => "bracket"

end Bracket

-- Words that are keywords only where a declaration can use them.
inductive Keyword where
  | function | default | extends_ | import_ | export_ | async | class_ | const | from_ | let_ | var
  | as_
  deriving DecidableEq, Repr

namespace Keyword

def spelling : Keyword → Text
  | function => ['f', 'u', 'n', 'c', 't', 'i', 'o', 'n']
  | default => ['d', 'e', 'f', 'a', 'u', 'l', 't']
  | extends_ => ['e', 'x', 't', 'e', 'n', 'd', 's']
  | import_ => ['i', 'm', 'p', 'o', 'r', 't']
  | export_ => ['e', 'x', 'p', 'o', 'r', 't']
  | async => ['a', 's', 'y', 'n', 'c']
  | class_ => ['c', 'l', 'a', 's', 's']
  | const => ['c', 'o', 'n', 's', 't']
  | from_ => ['f', 'r', 'o', 'm']
  | let_ => ['l', 'e', 't']
  | var => ['v', 'a', 'r']
  | as_ => ['a', 's']

-- Longest first, so that the first one a text starts with is the longest.
def all : List Keyword :=
  [function, default, extends_, import_, export_, async, class_, const, from_, let_, var, as_]

theorem mem_all (k : Keyword) : k ∈ all := by cases k <;> decide

end Keyword

-- Marks that stand alone in declarations and are ordinary punctuation elsewhere.
inductive Mark where
  | comma | star | dot
  deriving DecidableEq, Repr

namespace Mark

def char : Mark → Char
  | comma => ','
  | star => '*'
  | dot => '.'

def all : List Mark := [comma, star, dot]

end Mark

-- Leaves of opaque code.
inductive Leaf where
  | name | member | number | string | template | regex | punctuator
  deriving DecidableEq, Repr

namespace Leaf

def all : List Leaf := [name, member, number, string, template, regex, punctuator]

end Leaf

inductive Terminal where
  | keyword (word : Keyword)
  | opener (bracket : Bracket)
  | closer (bracket : Bracket)
  | mark (mark : Mark)
  | leaf (leaf : Leaf)
  deriving DecidableEq, Repr

namespace Terminal

-- The name of the terminal in a displayed tree.
def label : Terminal → String
  | keyword .function => "FUNCTION"
  | keyword .default => "DEFAULT"
  | keyword .extends_ => "EXTENDS"
  | keyword .import_ => "IMPORT"
  | keyword .export_ => "EXPORT"
  | keyword .async => "ASYNC"
  | keyword .class_ => "CLASS"
  | keyword .const => "CONST"
  | keyword .from_ => "FROM"
  | keyword .let_ => "LET"
  | keyword .var => "VAR"
  | keyword .as_ => "AS"
  | opener .brace => "LBRACE"
  | opener .paren => "LPAR"
  | opener .square => "LSQB"
  | closer .brace => "RBRACE"
  | closer .paren => "RPAR"
  | closer .square => "RSQB"
  | mark .comma => "COMMA"
  | mark .star => "STAR"
  | mark .dot => "DOT"
  | leaf .name => "IDENT"
  | leaf .member => "MEMBER"
  | leaf .number => "NUMBER"
  | leaf .string => "STRING"
  | leaf .template => "TEMPLATE"
  | leaf .regex => "REGEX"
  | leaf .punctuator => "PUNCT"

def openers : List Terminal := [opener .brace, opener .paren, opener .square]
def closers : List Terminal := [closer .brace, closer .paren, closer .square]
def leaves : List Terminal := Leaf.all.map leaf
def keywords : List Terminal := Keyword.all.map keyword
def marks : List Terminal := Mark.all.map mark

-- What code inside a group consists of, its closing bracket apart.
def inner : List Terminal := openers ++ leaves

-- What may begin an item of a module.
def outer : List Terminal := keyword .import_ :: keyword .export_ :: inner

def all : List Terminal := keywords ++ openers ++ closers ++ marks ++ leaves

end Terminal
end ModuleBundler
