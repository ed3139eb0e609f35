import SharedSession.CommandLine.Report
import SharedSession.Config.Location
import SharedSession.Host.Browser
import SharedSession.Text.Blank

set_option autoImplicit false

/-!
# A product that is driven by lines

One tab with one product, and a command a line: signals of activity, changes of visibility, the
end of the session, a question for the status, and the end of it all. White space around a command
does not count, and a line that is no command does nothing. What has become of the product since
the last line is told first.
-/

namespace SharedSession.CommandLine

/-- A command for a product. -/
inductive Order where
  | activity
  | visibility (isVisible : Bool)
  | expire
  | status
  | quit
deriving DecidableEq, Repr, Inhabited

/-- The command in a line. -/
def Order.ofLine? (line : String) : Option Order :=
  match Text.trim line with
  | "click" => some .activity
  | "touch" => some .activity
  | "key" => some .activity
  | "scroll" => some .activity
  | "visible" => some (.visibility true)
  | "hidden" => some (.visibility false)
  | "expire" => some .expire
  | "status" => some .status
  | "quit" => some .quit
  | "exit" => some .quit
  | _ => none

/-- A product that is driven by lines. -/
structure Watch where
  key : String
  medium : Medium Stores
  /-- what stands behind the storage -/
  backing : Backing Stores
  browser : Browser Stores
  /-- how many notices have been told -/
  told : Nat

namespace Watch

/-- The notices up to now, latest first. -/
def notices (w : Watch) : List Notice :=
  match w.browser.products.head? with
  | some p => p.notices
  | none => []

/-- Opens the tab and starts the product. -/
def start (storage : Medium Stores × Backing Stores) (config : Config) (key : String)
    (compute : Nat → Option String → Decision) (browser : Browser Stores) : Watch :=
  let (m, k) := storage
  let b := (browser.act m k (.openTab config)).act m k (.start 0 key compute)
  let w : Watch := ⟨key, m, k, b, 0⟩
  { w with told := w.notices.length }

/-- Lets something happen in the tab. -/
def act (w : Watch) (a : Browser.Action) : Watch :=
  { w with browser := w.browser.act w.medium w.backing a }

/-- The lines about what has become of the product and has not been told. -/
def news (w : Watch) : List String :=
  ((w.notices.take (w.notices.length - w.told)).reverse.map (newsLine w.key))

/-- The line about the product's context. -/
def status (w : Watch) : String :=
  statusLine w.key ((w.browser.products.head?).bind (·.find? none))

/-- Tells the news, then other lines. -/
def tell (w : Watch) (lines : List String) : List String × Watch :=
  (w.news ++ lines, { w with told := w.notices.length })

/-- Carries out a command other than the last. -/
def obey (w : Watch) : Order → List String × Watch
  | .activity => (w.act (.activity 0 1)).tell []
  | .visibility isVisible => (w.act (.visibility 0 isVisible)).tell []
  | .expire => (w.act (.expire 0)).tell []
  | .status =>
    let w := w.act (.flush 0)
    w.tell [w.status]
  | .quit => w.tell []

/-- Carries out the commands in lines, up to the last one, and gives what is printed. -/
def run : List String → Watch → List String × Watch
  | [], w => w.tell []
  | line :: lines, w =>
    match Order.ofLine? line with
    | none => run lines w
    | some .quit => w.tell []
    | some order =>
      let (printed, w) := w.obey order
      let (later, w) := run lines w
      (printed ++ later, w)

end Watch

end SharedSession.CommandLine
