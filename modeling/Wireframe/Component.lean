import Wireframe.Text.Order

/-!
The components that a generated interface may use, each with its contract: the props it takes, those it
needs, and the values that some of them are limited to. The list is closed.
-/

namespace Wireframe

/-- A group of components. -/
inductive Category
  | container
  | navigation
  | content
  | control
deriving DecidableEq, Repr

namespace Category

def all : List Category := [container, navigation, content, control]

def name : Category → String
  | container => "container"
  | navigation => "navigation"
  | content => "content"
  | control => "control"

def ofName? (s : String) : Option Category := all.find? (·.name = s)

end Category

/-- The contract of one component. -/
structure Component where
  name : String
  props : List String
  required : List String
  variants : List (String × List String)
  description : String
  category : Category

namespace Component

/-- The prop that holds text or stands for child nodes. -/
def textProp : String := "children"

def acceptsChildren (c : Component) : Bool := c.props.contains textProp

def sizes : List String := ["sm", "md", "lg"]

def paddings : List String := ["none", "sm", "md", "lg"]

def button : Component where
  name := "Button"
  props := ["children", "variant", "size", "disabled", "fullWidth"]
  required := ["children"]
  variants := [("variant", ["primary", "secondary", "outline", "danger"]), ("size", sizes)]
  description := "Clickable action with a text label"
  category := .control

def card : Component where
  name := "Card"
  props := ["children", "title", "subtitle", "variant", "padding"]
  required := ["children"]
  variants := [("variant", ["default", "bordered", "elevated"]), ("padding", paddings)]
  description := "Framed panel grouping related content under an optional title"
  category := .content

def input : Component where
  name := "Input"
  props := ["type", "placeholder", "value", "label", "error", "disabled", "fullWidth", "size"]
  required := []
  variants := [("type", ["text", "email", "password", "number", "tel", "url"]), ("size", sizes)]
  description := "Single-line text field with optional label and error text"
  category := .control

def table : Component where
  name := "Table"
  props := ["columns", "data", "striped", "hoverable", "bordered"]
  required := ["columns", "data"]
  variants := []
  description := "Tabular data; columns are \x7bkey, header\x7d objects, data is a list of rows"
  category := .content

def modal : Component where
  name := "Modal"
  props := ["isOpen", "title", "children", "size", "showCloseButton"]
  required := ["isOpen", "children"]
  variants := [("size", ["sm", "md", "lg", "xl"])]
  description := "Dialog overlay shown when isOpen is true"
  category := .content

def sidebar : Component where
  name := "Sidebar"
  props := ["items", "header", "footer", "width", "position"]
  required := ["items"]
  variants := [("width", sizes), ("position", ["left", "right"])]
  description := "Vertical navigation list docked to one side"
  category := .navigation

def navbar : Component where
  name := "Navbar"
  props := ["brand", "items", "actions", "variant"]
  required := []
  variants := [("variant", ["light", "dark"])]
  description := "Top navigation bar with brand, links and actions"
  category := .navigation

def chart : Component where
  name := "Chart"
  props := ["data", "type", "title", "color", "height"]
  required := ["data"]
  variants := [("type", ["bar", "line", "pie"])]
  description := "Bar, line or pie chart over a list of \x7blabel, value\x7d points"
  category := .content

def stack : Component where
  name := "Stack"
  props := ["children", "gap", "direction", "align"]
  required := ["children"]
  variants := [
    ("gap", ["none", "sm", "md", "lg", "xl"]),
    ("direction", ["vertical", "horizontal"]),
    ("align", ["start", "center", "end", "stretch"])]
  description := "Flex layout placing children in a row or column"
  category := .container

def center : Component where
  name := "Center"
  props := ["children", "maxWidth", "padding"]
  required := ["children"]
  variants := [("maxWidth", ["sm", "md", "lg", "xl", "full"]), ("padding", paddings)]
  description := "Centers its children horizontally within a max width"
  category := .container

def container : Component where
  name := "Container"
  props := ["children", "maxWidth", "padding", "centered"]
  required := ["children"]
  variants := [("maxWidth", ["sm", "md", "lg", "xl", "2xl", "full"]), ("padding", paddings)]
  description := "Page-level wrapper constraining content width"
  category := .container

/-- All components, in the order in which they are always listed. -/
def all : List Component :=
  [button, card, input, table, modal, sidebar, navbar, chart, stack, center, container]

def names : List String := all.map (·.name)

def find? (name : String) : Option Component := all.find? (·.name = name)

/-- Whether a name is on the list of components. -/
def isRegistered (name : String) : Bool := (find? name).isSome

/-- The names of a group, in the usual order. -/
def namesIn (category : Category) : List String := (all.filter (·.category = category)).map (·.name)

/-- The folder that every component is imported from. -/
def modulePath : String := "@/components/ui/"

def importPath (name : String) : String := modulePath ++ name

/-- Tags that group elements and are no components. -/
def structuralTags : List String := ["Fragment", "React.Fragment"]

/-- Names sorted by code points. -/
def sortNames (names : List String) : List String :=
  names.mergeSort fun a b => Text.atMost a.toList b.toList

end Component

end Wireframe
