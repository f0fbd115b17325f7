import HeaderOutline.LineIndex
import HeaderOutline.Outline.Lookup
import HeaderOutline.Proofs.AccessLevels
import HeaderOutline.Proofs.Account
import HeaderOutline.Proofs.Attribute
import HeaderOutline.Proofs.Closing
import HeaderOutline.Proofs.Core.Tree
import HeaderOutline.Proofs.Counting
import HeaderOutline.Proofs.Policy
import HeaderOutline.Proofs.Replacement
import HeaderOutline.Proofs.Returns
import HeaderOutline.Proofs.RoundTrip
import HeaderOutline.Proofs.Traversal
import HeaderOutline.Proofs.Kinds
import HeaderOutline.Proofs.Diagnostics
import HeaderOutline.Proofs.Merging
import HeaderOutline.Proofs.Sequel
import HeaderOutline.Token.Cursor
import HeaderOutline.Token.Display
import HeaderOutline.Proofs.Respaced.Basic
import HeaderOutline.Proofs.Respaced.Front
import HeaderOutline.Proofs.Respaced.Brackets
import HeaderOutline.Proofs.Gaps
import HeaderOutline.Proofs.Template
import HeaderOutline.Proofs.Bodies
import HeaderOutline.Proofs.Predefined
import HeaderOutline.Proofs.Progress
import HeaderOutline.Proofs.Signatures
import HeaderOutline.Proofs.Changes
import HeaderOutline.Proofs.Limits
import HeaderOutline.Proofs.Finding
import HeaderOutline.Proofs.Catalogue
import HeaderOutline.Proofs.Chains
import HeaderOutline.Proofs.Written
import HeaderOutline.Proofs.Parameters
import HeaderOutline.Proofs.LexicalGrammar
import HeaderOutline.Proofs.Normal
import HeaderOutline.Proofs.Places
import HeaderOutline.Proofs.Content
import HeaderOutline.Proofs.Continuation
import HeaderOutline.Proofs.CommentNames
