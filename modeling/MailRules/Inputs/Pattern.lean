import MailRules.Text.Basic
import MailRules.Text.Wildcard
import MailRules.Tree.Host

/-! Paths that stand for several files.

A pattern may have wildcards in any of its parts. Parts without wildcards are taken as they are,
if something is there. -/
namespace MailRules.Host

def hasWildcard (p : Path) : Bool := p.parts.any Text.hasWildcard

/-- Something is there, if only a link. -/
def isThere (h : Host) (p : Path) : Bool :=
  (h.tree.find h.home false p).isOk

def leadsToDirectory (h : Host) (p : Path) : Bool :=
  match h.tree.find h.home true p with
  | .ok (_, .directory) => true
  | _ => false

/-- The paths below a directory that one part of a pattern stands for. -/
def matchPart (h : Host) (directoriesOnly : Bool) (part : String) (directory : Path) : List Path :=
  if Text.hasWildcard part then
    ((h.names directory).filter (Text.wildcardMatch part)).map directory.child |>.filter fun p =>
      !directoriesOnly || h.leadsToDirectory p
  else [directory.child part].filter h.isThere

/-- The paths that the parts stand for, the last part first; on the way to the last part only
directories count. -/
def matchParts (h : Host) (anchor : Anchor) (directoriesOnly : Bool) : List String → List Path
  | [] => [⟨anchor, []⟩]
  | part :: before =>
    if !(part :: before).any Text.hasWildcard then [⟨anchor, (part :: before).reverse⟩]
    else (h.matchParts anchor true before).flatMap (h.matchPart directoriesOnly part)

/-- Everything that a pattern stands for, in the order of the texts. -/
def matchPattern (h : Host) (p : Path) : List Path :=
  (h.matchParts p.anchor false p.parts.reverse).mergeSort fun a b => decide (a.text ≤ b.text)

end MailRules.Host
