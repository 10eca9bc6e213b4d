/-
ProxyBroker.Provider.FreeProxyListsCom — reading the lists of
freeproxylists.com (`FreeProxyListsCom.get`).

A variant has an index page, which links to numbered lists. `get` asks for
the index, then for each of the lists, and keeps what it finds in them.

* `loadPages_served` — the loop over the lists, from any call on;
* `get_site` — what `get` asks for, keeps and returns, for every site and
  up to the first list that is refused.

`http` answers the k-th call, or rejects it. Left out: headers and cookies
of the requests, the flags of a variant, which nothing reads, and the log
messages.
-/
import ProxyBroker.Provider.AbstractProvider

namespace ProxyBroker.Provider.FreeProxyListsCom

open Lib Lib.Matcher

def baseUrl : Text := "http://www.freeproxylists.com".toList

/-! ## Variants -/

/-- `IProviderVariant`. The pattern stands for its second group. -/
structure IProviderVariant where
  type : Text
  path : Text
  pattern : Matcher Text
  path_load : Text

/-- `href=("|')anon\/d(\d+)\.html("|')`, for a directory. -/
def idMatcher (load : Text) : Matcher Text :=
  andThen (lit ('h' :: "ref=".toList)) fun _ =>
  andThen quote fun _ =>
  andThen (lit (load ++ "/d".toList)) fun _ =>
  andThen digits fun id =>
  andThen (lit ".html".toList) fun _ =>
  andThen quote fun _ => done id

def variantOf (type path load : String) : IProviderVariant where
  type := type.toList
  path := path.toList
  pattern := idMatcher load.toList
  path_load := load.toList

def variants : List IProviderVariant :=
  [variantOf "anonym" "anonymous.html" "anon",
    variantOf "transparent" "non-anonymous.html" "nonanon",
    variantOf "elite" "elite.html" "elite",
    variantOf "https" "https.html" "https",
    variantOf "standard" "standard.html" "standard",
    variantOf "us" "us.html" "us",
    variantOf "uk" "uk.html" "uk",
    variantOf "ca" "ca.html" "ca",
    variantOf "fr" "fr.html" "fr"]

/-- Every pattern looks for links into the directory of its variant. -/
theorem pattern_of_mem {v : IProviderVariant} (h : v ∈ variants) :
    v.pattern = idMatcher v.path_load := by
  have hall : variants.map IProviderVariant.pattern =
      variants.map (fun v => idMatcher v.path_load) := rfl
  exact List.map_inj_left.mp hall v h

/-! ## `get` -/

/-- `ip_regex` -/
def ipRegex : Matcher IProxyData :=
  rowMatcher ('&' :: "gt;".toList) (lit "&lt;/td&gt;&lt;td&gt;".toList) "&lt;".toList

def indexUrl (v : IProviderVariant) : Text := baseUrl ++ '/' :: v.path

def pageUrl (v : IProviderVariant) (id : Text) : Text :=
  baseUrl ++ ("/load_".toList ++ (v.path_load ++ ("_d".toList ++ (id ++ ".html".toList))))

/-- `get` on its way: the provider, what it has asked for, and the list it
returns. A rejection returns none. -/
structure Run where
  provider : AbstractProvider IProviderVariant
  requests : List Text
  result : Option (List IProxyData) := none

variable (http : Nat → Text → Option Text)

/-- The loop over `matched_ids`. -/
def loadPages (v : IProviderVariant) : List Text → Run → Run
  | [], run => { run with result := some run.provider.proxies }
  | id :: ids, run =>
      let url := pageUrl v id
      let requests := run.requests ++ [url]
      match http run.requests.length url with
      | some html => loadPages v ids ⟨run.provider.pushMatches ipRegex html, requests, none⟩
      | none => ⟨run.provider, requests, none⟩

/-- `get`; without a variant it throws. -/
def get (variant : Option IProviderVariant) (p : AbstractProvider IProviderVariant) : Run :=
  let p :=
    match variant with
    | some v => p.selectVariant IProviderVariant.type variants (.inr v)
    | none => p
  match p.variant with
  | none => ⟨p, [], none⟩
  | some v =>
      match http 0 (indexUrl v) with
      | none => ⟨p, [indexUrl v], none⟩
      | some html => loadPages http v (matchAll v.pattern html) ⟨p, [indexUrl v], none⟩

/-! ## Sites -/

/-- A link to a list, with the quotes it is written in. -/
structure Link where
  before : Bool
  id : Numeral
  behind : Bool

def Link.text (load : Text) (link : Link) : Text :=
  ('h' :: "ref=".toList) ++ (quoteText link.before ++ ((load ++ "/d".toList) ++
    (link.id.text ++ (".html".toList ++ quoteText link.behind))))

theorem Link.takes (load : Text) (link : Link) (r : Text) :
    Takes (idMatcher load) (link.text load ++ r) link.id.text r := by
  have hdot (s : Text) : ∀ c ∈ (".html".toList ++ s).head?, c.isDigit = false := by
    intro c hc
    cases hc
    rfl
  have hid := link.id.takes (hdot (quoteText link.behind ++ r))
  have htext : link.text load ++ r = ('h' :: "ref=".toList) ++ (quoteText link.before ++
      ((load ++ "/d".toList) ++ (link.id.text ++ (".html".toList ++
        (quoteText link.behind ++ r))))) := by
    simp only [Link.text, List.append_assoc]
  rw [htext]
  exact takes_andThen (takes_lit _ _) (takes_andThen (takes_quote _ _)
    (takes_andThen (takes_lit _ _) (takes_andThen hid
      (takes_andThen (takes_lit _ _) (takes_andThen (takes_quote _ _) (takes_done _ _))))))

def Link.row (load : Text) (link : Link) : Row (idMatcher load) (fun _ => false) where
  text := link.text load
  value := link.id.text
  nonempty := List.cons_ne_nil _ _
  takes r _ := link.takes load r

/-- `&lt;/td&gt;&lt;td&gt;` -/
def cellGap : Gap (lit "&lt;/td&gt;&lt;td&gt;".toList) where
  text := "&lt;/td&gt;&lt;td&gt;".toList
  starts := ⟨'&', rfl, rfl⟩
  takes r _ := takes_lit _ r

def listRow (row : ProxyRow) : Row ipRegex (rowMore "&lt;".toList) :=
  writeRow (by intro c hc; cases hc; rfl) row cellGap

/-- A page of addresses. -/
abbrev ListPage := Page listRow

/-- A site, as a variant finds it: its index, and its lists up to one that
is refused, if any is. -/
structure Site (v : IProviderVariant) where
  index : Page (Link.row v.path_load)
  lists : List ListPage

variable {v : IProviderVariant}

def Site.ids (site : Site v) : List Text := site.index.pieces.map (fun q => q.2.id.text)

/-- What a list has to offer. -/
def entries (list : ListPage) : List IProxyData := list.pieces.map (fun q => q.2.data)

/-- The lists that the calls from the n-th on are answered with, one for
each link up to a refusal. -/
inductive Served (v : IProviderVariant) : Nat → List Text → List ListPage → Prop
  | done {n} : Served v n [] []
  | refused {n id ids} (hcall : http n (pageUrl v id) = none) : Served v n (id :: ids) []
  | list {n id ids list lists} (hcall : http n (pageUrl v id) = some list.text)
      (hrest : Served v (n + 1) ids lists) : Served v n (id :: ids) (list :: lists)

/-- The calls answer as the site does. -/
structure Serves (site : Site v) : Prop where
  index : http 0 (indexUrl v) = some site.index.text
  lists : Served http v 1 site.ids site.lists

theorem matchAll_index (site : Site v) :
    matchAll (idMatcher v.path_load) site.index.text = site.ids := matchAll_page site.index

theorem matchAll_list (list : ListPage) : matchAll ipRegex list.text = entries list :=
  matchAll_page list

/-! ## What `get` does -/

/-- **The loop over the lists**, from any call on. -/
theorem loadPages_served {n : Nat} {ids : List Text} {lists : List ListPage}
    (hserved : Served http v n ids lists) (run : Run) (hn : run.requests.length = n) :
    loadPages http v ids run =
      let proxies := pushAll run.provider.proxies (lists.flatMap entries)
      { provider := { run.provider with proxies := proxies }
        requests := run.requests ++ (ids.take (lists.length + 1)).map (pageUrl v)
        result := if lists.length = ids.length then some proxies else none } := by
  induction hserved generalizing run with
  | done => simp [loadPages]
  | refused hcall =>
      subst hn
      simp [loadPages, hcall]
  | @list n id ids list lists hcall hrest ih =>
      subst hn
      have hloop := ih
        ⟨run.provider.pushMatches ipRegex list.text, run.requests ++ [pageUrl v id],
          none⟩ (by simp)
      rw [loadPages]
      simp only [hcall]
      rw [hloop]
      simp [AbstractProvider.pushMatches_eq, matchAll_list, pushAll_append]

/-- `get` with a site, as a whole. -/
theorem get_served (p : AbstractProvider IProviderVariant) (hvariant : p.variant = some v)
    (hmem : v ∈ variants) {site : Site v} (hserves : Serves http site) :
    get http none p =
      let proxies := pushAll p.proxies (site.lists.flatMap entries)
      { provider := { p with proxies := proxies }
        requests := indexUrl v :: (site.ids.take (site.lists.length + 1)).map (pageUrl v)
        result := if site.lists.length = site.ids.length then some proxies else none } := by
  have hrun : get http none p = loadPages http v site.ids ⟨p, [indexUrl v], none⟩ := by
    simp [get, hvariant, hserves.index, pattern_of_mem hmem, matchAll_index]
  exact hrun.trans (loadPages_served http hserves.lists ⟨p, [indexUrl v], none⟩ rfl)

/-- **What `get` does with a site**: it asks for the index and then for the
lists in the order of their links, stops at the first that is refused, and
keeps everything new it was given, each once and in that order; without a
refusal it returns its list. -/
theorem get_site (p : AbstractProvider IProviderVariant) (hvariant : p.variant = some v)
    (hmem : v ∈ variants) (site : Site v) (hserves : Serves http site) :
    let found := site.lists.flatMap entries
    let proxies := p.proxies ++ (found.removeAll p.proxies).eraseDups
    let run := get http none p
    run.provider.proxies = proxies ∧
      run.requests =
        indexUrl v :: (site.ids.take (site.lists.length + 1)).map (pageUrl v) ∧
      run.result = if site.lists.length = site.ids.length then some proxies else none := by
  rw [get_served http p hvariant hmem hserves]
  simp [pushAll_eq]

/-- A site with two links and one list, which has one address twice. -/
def exampleSite : Site (variantOf "uk" "uk.html" "uk") where
  index :=
    { pieces := [("<a href=\"index.html\"><a ".toList, ⟨true, exampleRow.first, true⟩),
        (">".toList, ⟨false, exampleRow.first, false⟩)]
      last := "/>".toList
      spaced := by decide +kernel }
  lists :=
    [{ pieces := [("<td>".toList, exampleRow), ("&gt;1&lt;".toList, exampleRow)]
       last := "/td".toList
       spaced := by decide +kernel }]

def exampleHttp : Nat → Text → Option Text
  | 0, _ => some exampleSite.index.text
  | 1, _ => (exampleSite.lists.map (fun list => list.text)).head?
  | _, _ => none

theorem get_site_refused :
    let run := get exampleHttp none { variant := some (variantOf "uk" "uk.html" "uk") }
    run.provider.proxies = [⟨"10.10.10.10".toList, 10⟩] ∧ run.requests.length = 3 ∧
      run.result = none := by
  have hserves : Serves exampleHttp exampleSite := ⟨rfl, .list rfl (.refused rfl)⟩
  obtain ⟨hproxies, hrequests, hresult⟩ := get_site exampleHttp
    { variant := some (variantOf "uk" "uk.html" "uk") } rfl (by simp [variants]) exampleSite hserves
  refine ⟨hproxies.trans (by decide +kernel), ?_, hresult.trans rfl⟩
  rw [hrequests]
  rfl

end ProxyBroker.Provider.FreeProxyListsCom
