namespace Templating.Tag

def domElements : List String := [
  "a", "abbr", "address", "area", "article", "aside", "audio", "b", "base", "bdi", "bdo",
  "blockquote", "body", "br", "button", "canvas", "caption", "cite", "code", "col", "colgroup",
  "content", "data", "datalist", "dd", "del", "details", "dfn", "dialog", "dir", "div", "dl",
  "dt", "em", "embed", "fieldset", "figcaption", "figure", "font", "footer", "form", "frame",
  "frameset", "h1", "h2", "h3", "h4", "h5", "h6", "head", "header", "hgroup", "hr", "html", "i",
  "iframe", "img", "input", "ins", "kbd", "label", "legend", "li", "link", "main", "map", "mark",
  "marquee", "menu", "meta", "meter", "nav", "noscript", "object", "ol", "optgroup", "option",
  "output", "p", "param", "picture", "pre", "progress", "q", "rb", "rp", "rt", "rtc", "ruby", "s",
  "samp", "script", "search", "section", "select", "shadow", "slot", "small", "source", "span",
  "strong", "style", "sub", "summary", "sup", "table", "tbody", "td", "template", "textarea",
  "tfoot", "th", "thead", "time", "title", "tr", "track", "u", "ul", "var", "video", "wbr",
  ":svg:a", ":svg:animate", ":svg:animateMotion", ":svg:animateTransform", ":svg:circle",
  ":svg:clipPath", ":svg:defs", ":svg:desc", ":svg:discard", ":svg:ellipse", ":svg:feBlend",
  ":svg:feColorMatrix", ":svg:feComposite", ":svg:feGaussianBlur", ":svg:feOffset", ":svg:filter",
  ":svg:foreignObject", ":svg:g", ":svg:image", ":svg:line", ":svg:linearGradient", ":svg:marker",
  ":svg:mask", ":svg:metadata", ":svg:path", ":svg:pattern", ":svg:polygon", ":svg:polyline",
  ":svg:radialGradient", ":svg:rect", ":svg:script", ":svg:set", ":svg:stop", ":svg:style",
  ":svg:svg", ":svg:switch", ":svg:symbol", ":svg:text", ":svg:textPath", ":svg:title",
  ":svg:tspan", ":svg:use", ":svg:view", ":math:annotation", ":math:annotation-xml", ":math:math",
  ":math:merror", ":math:mfrac", ":math:mi", ":math:mmultiscripts", ":math:mn", ":math:mo",
  ":math:mover", ":math:mpadded", ":math:mphantom", ":math:mroot", ":math:mrow", ":math:ms",
  ":math:mspace", ":math:msqrt", ":math:mstyle", ":math:msub", ":math:msubsup", ":math:msup",
  ":math:mtable", ":math:mtd", ":math:mtext", ":math:mtr", ":math:munder", ":math:munderover",
  ":math:semantics"]

end Templating.Tag
