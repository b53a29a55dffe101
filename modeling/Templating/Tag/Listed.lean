import Templating.Tag.Rule

namespace Templating.Tag

/-- The blocks that end a paragraph. -/
def blocks : List String := [
  "address", "article", "aside", "blockquote", "div", "dl", "fieldset", "footer", "form", "h1",
  "h2", "h3", "h4", "h5", "h6", "header", "hgroup", "hr", "main", "nav", "ol", "p", "pre",
  "section", "table", "ul"]

/-- The parts of a ruby annotation. -/
def rubyParts : List String := ["rb", "rt", "rtc", "rp"]

/-- Ended by certain children, and by the end of the parent. -/
def endedBy (children : List String) : Rule :=
  { closedBy := children, closedByParent := true }

def listedRules : List (String × Rule) := [
  ("base", .void),
  ("meta", .void),
  ("area", .void),
  ("embed", .void),
  ("link", .void),
  ("img", .void),
  ("input", .void),
  ("param", .void),
  ("hr", .void),
  ("br", .void),
  ("source", .void),
  ("track", .void),
  ("wbr", .void),
  ("p", endedBy blocks),
  ("thead", { closedBy := ["tbody", "tfoot"] }),
  ("tbody", endedBy ["tbody", "tfoot"]),
  ("tfoot", endedBy ["tbody"]),
  ("tr", endedBy ["tr"]),
  ("td", endedBy ["td", "th"]),
  ("th", endedBy ["td", "th"]),
  ("col", .void),
  ("svg", { impliedSpace := some "svg" }),
  ("foreignObject", { impliedSpace := some "svg", isolatesSpace := true }),
  ("math", { impliedSpace := some "math" }),
  ("li", endedBy ["li"]),
  ("dt", { closedBy := ["dt", "dd"] }),
  ("dd", endedBy ["dt", "dd"]),
  ("rb", endedBy rubyParts),
  ("rt", endedBy rubyParts),
  ("rtc", endedBy ["rb", "rtc", "rp"]),
  ("rp", endedBy rubyParts),
  ("optgroup", endedBy ["optgroup"]),
  ("option", endedBy ["option", "optgroup"]),
  ("pre", { dropsFirstLineFeed := true }),
  ("listing", { dropsFirstLineFeed := true }),
  ("style", { content := .fixed .rawText }),
  ("script", { content := .fixed .rawText }),
  ("title", { content := .byNamespace .escapableRawText [("svg", .parsableData)] }),
  ("textarea", { content := .fixed .escapableRawText, dropsFirstLineFeed := true })]

end Templating.Tag
