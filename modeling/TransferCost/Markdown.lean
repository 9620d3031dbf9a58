/-!
# Markdown documents

A document is a list of blocks.  Each block is some lines of text, and an empty line stands between
two blocks.
-/

namespace TransferCost

/-- A table of a Markdown document. -/
structure MarkdownTable where
  header : List String
  rows : List (List String)
deriving DecidableEq

/-- A part of a Markdown document. -/
inductive Block where
  | heading (level : Nat) (text : String)
  | paragraph (text : String)
  | table (t : MarkdownTable)
  | bullets (items : List String)
  | numbered (items : List String)
deriving DecidableEq

namespace Block

/-- A row of cells. -/
def row (cells : List String) : String :=
  "| " ++ String.intercalate " | " cells ++ " |"

/-- The line under the header of a table, as wide as the header. -/
def rule (header : List String) : String :=
  "|" ++ String.join (header.map fun cell =>
    String.ofList (List.replicate (cell.length + 2) '-') ++ "|")

/-- The marks before a heading. -/
def marks (level : Nat) : String :=
  String.ofList (List.replicate level '#')

/-- The lines of a block. -/
def lines : Block → List String
  | heading level text => [marks level ++ " " ++ text]
  | paragraph text => [text]
  | table t => row t.header :: rule t.header :: t.rows.map row
  | bullets items => items.map ("* " ++ ·)
  | numbered items => items.mapIdx fun i item => s!"{i + 1}. {item}"

/-- The lines of a document. -/
def linesOf : List Block → List String
  | [] => []
  | [b] => b.lines
  | b :: rest => b.lines ++ "" :: linesOf rest

/-- The text of a document. -/
def textOf (blocks : List Block) : String :=
  String.join ((linesOf blocks).map (· ++ "\n"))

end Block
end TransferCost
