import HeaderOutline.Doc.Basic

/-! # Tags

A tag says which field of a documentation comment a text belongs to.  Several
names may mean the same field; a name that means none is a field of its own.
-/
namespace HeaderOutline

/-- The field that a tag speaks of. -/
inductive Tag
  | brief | detailed | param | returns | throws | since | deprecatedNote | see | author | version
  | defgroup | ingroup | addtogroup | file | namespaceName | className
  | custom (name : Text)
deriving DecidableEq, Repr

namespace Tag

/-- The names with a meaning. -/
def names : List (Text × Tag) :=
  [("brief".toList, .brief), ("short".toList, .brief),
   ("details".toList, .detailed), ("detailed".toList, .detailed),
   ("param".toList, .param),
   ("return".toList, .returns), ("returns".toList, .returns), ("result".toList, .returns),
   ("throw".toList, .throws), ("throws".toList, .throws), ("exception".toList, .throws),
   ("since".toList, .since),
   ("deprecated".toList, .deprecatedNote),
   ("see".toList, .see), ("sa".toList, .see),
   ("author".toList, .author),
   ("version".toList, .version),
   ("defgroup".toList, .defgroup),
   ("ingroup".toList, .ingroup),
   ("addtogroup".toList, .addtogroup),
   ("file".toList, .file),
   ("namespace".toList, .namespaceName),
   ("class".toList, .className)]

/-- The tag of a name.  A parameter tag may carry a direction in brackets. -/
def ofName (name : Text) : Tag :=
  match names.lookup name with
  | some tag => tag
  | none => if "param[".toList.isPrefixOf name then .param else .custom name

end Tag

/-- A comment with the text of a tag added: lists grow, other fields are replaced.
A parameter takes its name from the first word and is left out without one. -/
def DocComment.record (d : DocComment) (tag : Tag) (content : Text) : DocComment :=
  match tag with
  | .brief => { d with brief := some content }
  | .detailed => { d with detailed := some content }
  | .param =>
    let (name, description) := Text.splitWord content
    if name.isEmpty then d else { d with params := d.params.put name description }
  | .returns => { d with returns := some content }
  | .throws => { d with throws := d.throws ++ [content] }
  | .since => { d with since := some content }
  | .deprecatedNote => { d with deprecatedNote := some content }
  | .see => { d with see := d.see ++ [content] }
  | .author => { d with author := some content }
  | .version => { d with version := some content }
  | .defgroup => { d with defgroup := some content }
  | .ingroup => { d with ingroup := d.ingroup ++ [content] }
  | .addtogroup => { d with addtogroup := some content }
  | .file => { d with file := some content }
  | .namespaceName => { d with namespaceName := some content }
  | .className => { d with className := some content }
  | .custom name => { d with customTags := d.customTags.put name content }

end HeaderOutline
