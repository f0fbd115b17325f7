import HeaderOutline.Doc.Tag

/-! # Reading a documentation comment

Each line loses its comment marks.  A line that opens with `@` or a backslash
starts a tag, which takes the lines after it up to the next tag; lines before the
first tag make up the brief description and, from the second one on, the detailed
one.  A comment without any text is no comment at all.
-/
namespace HeaderOutline.DocComment

/-- The marks that open a documentation comment. -/
def marks : List Text := ["/**".toList, "/*!".toList, "///".toList, "//!".toList]

/-- A line after the mark that opens it, if there is one.  A mark may be followed by
`<`, by which a comment points back. -/
def dropMark (line : Text) : Text :=
  match marks.findSome? line.after? with
  | some rest => rest.dropLead ['<']
  | none => line

/-- A line without comment marks, without one star in front, and without blanks at
its ends. -/
def cleanLine (line : Text) : Text :=
  (((dropMark line.trim).dropTail "*/".toList).trim.dropLead ['*']).trim

/-- The lines of a comment that hold text, cleaned. -/
def contentLines (raw : Text) : List Text :=
  (raw.lines.map cleanLine).filter (!·.isEmpty)

/-- A comment as far as it has been read, and the tag that is still open: its name
and the lines of its text so far. -/
structure Draft where
  doc : DocComment
  openTag : Option (Text × List Text)
deriving DecidableEq, Repr

namespace Draft

/-- The comment with the open tag recorded. -/
def close (d : Draft) : DocComment :=
  match d.openTag with
  | some (name, lines) => d.doc.record (.ofName name) (Text.joinWith [' '] lines)
  | none => d.doc

/-- The text of a line that starts a tag. -/
def tagged? (line : Text) : Option Text :=
  (line.after? ['@']).or (line.after? ['\\'])

/-- A line that belongs to no tag goes to the first description that takes it. -/
def describe (doc : DocComment) (line : Text) : DocComment :=
  if doc.brief.isNone then { doc with brief := some line }
  else match doc.detailed with
    | some text => { doc with detailed := some (text ++ ' ' :: line) }
    | none => { doc with detailed := some line }

/-- Reads one more line. -/
def read (d : Draft) (line : Text) : Draft :=
  match tagged? line with
  | some tag =>
    let (name, content) := Text.splitWord tag
    ⟨d.close, some (name, if content.isEmpty then [] else [content])⟩
  | none => match d.openTag with
    | some (name, lines) => ⟨d.doc, some (name, lines ++ [line])⟩
    | none => ⟨describe d.doc line, none⟩

end Draft

/-- The comment that a raw text holds, if it holds any. -/
def read? (raw : Text) : Option DocComment :=
  match contentLines raw with
  | [] => none
  | lines => some (lines.foldl Draft.read ⟨unread raw, none⟩).close

end HeaderOutline.DocComment
