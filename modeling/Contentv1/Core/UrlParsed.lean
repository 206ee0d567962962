import Contentv1.Core.Types

/-!
# URLs and robots.txt (`core/UrlParsed.cpp`, `core/Robots.cpp`)

The URL parser (ada) and the robots.txt matcher are libraries outside the repository: `Contribs`
holds the functions the code calls.
-/

namespace Contentv1

/-- The parts of a parsed URL that the code reads. -/
structure AdaUrl where
  host : Str
  href : Str
  protocol : Str

structure Contribs where
  /-- `ada::parse<ada::url>`. -/
  adaParse : Url → Option AdaUrl
  /-- `RobotsMatcher::OneAgentAllowedByRobots` on a text, a user agent and a URL. -/
  oneAgentAllowedByRobots : Str → Str → Url → Bool

/-- The libraries on plain `http` URLs with lower-case hosts and on texts that forbid nothing, which
is all that runs on fixed inputs look at. -/
def Contribs.plainHttp : Contribs where
  adaParse url :=
    let scheme := (Str.ofString "http://").bytes
    let slash := (Str.ofString "/").bytes
    if scheme.isPrefixOf url.bytes then
      let host := (url.bytes.drop scheme.length).takeWhile fun b => !slash.contains b
      let path := (url.bytes.drop scheme.length).dropWhile fun b => !slash.contains b
      if host.isEmpty then none
      else
        some
          { host := ⟨host⟩
            href := ⟨scheme ++ host ++ if path.isEmpty then slash else path⟩
            protocol := Str.ofString "http:" }
    else none
  oneAgentAllowedByRobots _ _ _ := true

def robotsPostfix : Str := Str.ofString "/robots.txt"

structure UrlParsed where
  ok : Bool
  host : Host
  normalized : Url
  robots : Url

namespace UrlParsed

/-- The constructor. -/
def ofUrl (c : Contribs) (url : Url) : UrlParsed :=
  match c.adaParse url with
  | none => ⟨false, default, default, default⟩
  | some ada =>
    ⟨true, ada.host, ada.href,
      ⟨ada.protocol.bytes ++ (Str.ofString "//").bytes ++ ada.host.bytes ++ robotsPostfix.bytes⟩⟩

def isRobots (parsed : UrlParsed) : Bool := parsed.normalized.endsWith robotsPostfix

end UrlParsed

structure Robots where
  robotsStr : Str
  deriving Repr

namespace Robots

def matchUserAgent : Str :=
  Str.ofString "Mozilla/5.0 (compatible; YandexBot/3.0; +http://yandex.com/bots)"

def isAllowed (c : Contribs) (robots : Robots) (url : Url) : Bool :=
  if robots.robotsStr.bytes.isEmpty then true
  else c.oneAgentAllowedByRobots robots.robotsStr matchUserAgent url

end Robots

end Contentv1
