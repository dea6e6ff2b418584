import PackageAssets.Psf.Decoder

/-!
# What a package says of itself

The well-known keys of a package's dictionary: its title, number, version,
category and attribute. A value of another type than expected counts as
missing. Category and attribute together give the kind of the package.
-/
namespace PackageAssets.Psf

inductive PackageKind where
  | homebrew
  | game
  | system
  | update
  | other (category : String)
  | unknown
  deriving DecidableEq, Repr

def PackageKind.name : PackageKind → String
  | homebrew => "Homebrew"
  | game => "Game"
  | system => "System"
  | update => "Update"
  | other category => category
  | unknown => "Unknown"

namespace Dictionary

/-- The attribute of applications that are not sold. -/
def homebrewAttribute : Int32 := 0x8000

def text? (d : Dictionary) (key : String) : Option String := (d.get? key).bind Value.asText?

def title? (d : Dictionary) : Option String := d.text? "TITLE"

def titleId? (d : Dictionary) : Option String := d.text? "TITLE_ID"

/-- The version of the application, or of the package if there is none. -/
def appVersion? (d : Dictionary) : Option String := (d.text? "APP_VER").or (d.text? "VERSION")

def category? (d : Dictionary) : Option String := d.text? "CATEGORY"

def attribute? (d : Dictionary) : Option Int32 := (d.get? "ATTRIBUTE").bind Value.asInt?

def packageKind (d : Dictionary) : PackageKind :=
  match d.category? with
  | none => .unknown
  | some category =>
    if category = "gd" then
      if d.attribute? = some homebrewAttribute then .homebrew else .game
    else if category = "gda" then .system
    else if category = "gp" then .update
    else .other category

end Dictionary

end PackageAssets.Psf
