import TaxlienGateway.Framework.Uri
import TaxlienGateway.Legacy.UpstreamBound

/-!
# What is passed on to an upstream service

The proxies write a path parameter into the path of their upstream request as it is, and turn the query
parameters of the client, a list with repetitions, into a `dict`.

* `path_parameter_passed_on_iff` — a path parameter reaches the upstream service as one segment that
  stands for it, exactly if it is self-denoting: it has no `?` and no `#`, no `%` before two hexadecimal
  digits, and is no dot segment.
* `query_forwarded_iff` — the query parameters are passed on as they were sent exactly if no name is repeated.
-/

namespace TaxlienGateway

open Framework

namespace Legacy

/-! ### Path parameters -/

/-- What the router binds to a path parameter: a decoded part of the path between two slashes. -/
structure PathParam where
  val : String
  nonempty : val.toList ≠ []
  noSlash : '/' ∉ val.toList

/-- The paths below which the parameters are written. -/
def propertiesPath : List Uri.Segment := ["api".toList, "v1".toList, "properties".toList]

def topListsPath : List Uri.Segment := ["api".toList, "v1".toList, "top-lists".toList]

/-- Every upstream request that the handler makes is as `P` says. -/
def Asks (P : UpstreamRequest → Prop) (p : Prog Await AwaitReply Answer) : Prop :=
  p.Obeys (fun _ c => ∀ r, c = .upstream r → P r) (fun _ _ => True) []

/-- A proxy makes one upstream request. -/
theorem asks_proxy_iff {P : UpstreamRequest → Prop} {r : UpstreamRequest} {detail : String} :
    Asks P (proxy r detail) ↔ P r := by
  constructor
  · intro h
    exact h.1 r rfl
  · intro h
    refine ⟨fun r' heq => Await.upstream.inj heq ▸ h, fun reply => ?_⟩
    cases reply <;> trivial

/-- So does `get_property`, if the cache has nothing. -/
theorem asks_getProperty_iff {P : UpstreamRequest → Prop} {request : ApiRequest} {parcel_id : String} :
    Asks P (request.getProperty parcel_id) ↔ P (request.propertyRequest parcel_id) := by
  constructor
  · intro h
    exact (h.2 (.ok (.ok none))).1 _ rfl
  · intro h
    have hget : (get (cacheKey parcel_id request.tier)).Obeys (fun _ c => ∀ r, c = .upstream r → P r)
        (fun _ _ => True) [] := ⟨fun _ heq => absurd heq (by simp), fun _ => trivial⟩
    refine obeys_orFail hget (fun _ _ _ => trivial) fun own cached_data _ => ?_
    split
    · trivial
    · refine ⟨fun r' heq => Await.upstream.inj heq ▸ h, fun reply => ?_⟩
      cases reply with
      | error e => trivial
      | ok response =>
        change (if response.status_code = 200 then _ else _ : Prog Await AwaitReply Answer).Obeys _ _ _
        split
        · -- the response is stored
          refine ⟨fun _ heq => absurd heq (by simp), fun reply => ?_⟩
          cases reply <;> trivial
        · trivial

/-- The parameter `x` is written into the path below `base`. -/
theorem denotes_iff {base : List Uri.Segment} (hbase : Uri.PlainPath base) {path : String}
    (x : PathParam) (hpath : path.toList = Uri.pathOf base ++ '/' :: x.val.toList) :
    Uri.Denotes path.toList base x.val.toList ↔ Uri.SelfDenoting x.val.toList := by
  rw [hpath]
  exact Uri.denotes_pathOf_append_iff hbase x.noSlash x.nonempty

theorem plainPath_propertiesPath : Uri.PlainPath propertiesPath := by
  unfold Uri.PlainPath
  decide

theorem plainPath_topListsPath : Uri.PlainPath topListsPath := by
  unfold Uri.PlainPath
  decide

/-- The path that `get_top_list` asks for. -/
def topListUrl (strategy : String) : String := "/api/v1/top-lists/" ++ strategy

theorem toList_propertyRequest_path (request : ApiRequest) (x : PathParam) :
    (request.propertyRequest x.val).path.toList =
      Uri.pathOf propertiesPath ++ '/' :: x.val.toList := by
  have hbase : "/api/v1/properties/".toList = Uri.pathOf propertiesPath ++ ['/'] := by decide
  show ("/api/v1/properties/" ++ x.val).toList = _
  rw [String.toList_append, hbase, List.append_assoc, List.singleton_append]

theorem toList_topListUrl (x : PathParam) :
    (topListUrl x.val).toList = Uri.pathOf topListsPath ++ '/' :: x.val.toList := by
  have hbase : "/api/v1/top-lists/".toList = Uri.pathOf topListsPath ++ ['/'] := by decide
  unfold topListUrl
  rw [String.toList_append, hbase, List.append_assoc, List.singleton_append]

/-- The path parameter `x` is passed on below `base` by the handler `p`: every upstream request of the
handler addresses the one segment that stands for it. -/
def PassesOn (base : List Uri.Segment) (x : PathParam) : Prog Await AwaitReply Answer → Prop :=
  Asks fun r => Uri.Denotes r.path.toList base x.val.toList

/-- Handlers that pass their parameters on ask for the same resource only for the same parameter. -/
def Separates (base : List Uri.Segment) (handler : PathParam → Prog Await AwaitReply Answer)
    (x : PathParam) : Prop :=
  ∀ y, PassesOn base y (handler y) → ∀ url, Asks (fun r => Uri.target r.path.toList = url) (handler x) →
    Asks (fun r => Uri.target r.path.toList = url) (handler y) → x.val = y.val

/-- **When a path parameter is passed on.** Either handler passes its parameter on if and only if the
parameter is self-denoting, and then different parameters address different resources. -/
theorem path_parameter_passed_on_iff (request : ApiRequest) (query_params : List (String × String))
    (x : PathParam) :
    (PassesOn propertiesPath x (request.getProperty x.val) ∧
        Separates propertiesPath (fun y => request.getProperty y.val) x ↔
      Uri.SelfDenoting x.val.toList) ∧
    (PassesOn topListsPath x (request.getTopList x.val query_params) ∧
        Separates topListsPath (fun y => request.getTopList y.val query_params) x ↔
      Uri.SelfDenoting x.val.toList) := by
  constructor
  · have hiff : ∀ y : PathParam, PassesOn propertiesPath y (request.getProperty y.val) ↔
        Uri.Denotes (request.propertyRequest y.val).path.toList propertiesPath y.val.toList :=
      fun y => asks_getProperty_iff
    rw [← denotes_iff plainPath_propertiesPath x (toList_propertyRequest_path request x), hiff]
    refine and_iff_left_of_imp fun hx y hy url hurl hurl' => ?_
    exact String.toList_inj.mp (Uri.eq_of_target hx ((hiff y).mp hy)
      ((asks_getProperty_iff.mp hurl).trans (asks_getProperty_iff.mp hurl').symm))
  · have hiff : ∀ y : PathParam, PassesOn topListsPath y (request.getTopList y.val query_params) ↔
        Uri.Denotes (topListUrl y.val).toList topListsPath y.val.toList :=
      fun y => asks_proxy_iff
    rw [← denotes_iff plainPath_topListsPath x (toList_topListUrl x), hiff]
    refine and_iff_left_of_imp fun hx y hy url hurl hurl' => ?_
    exact String.toList_inj.mp (Uri.eq_of_target hx ((hiff y).mp hy)
      ((asks_proxy_iff.mp hurl).trans (asks_proxy_iff.mp hurl').symm))

/-- A parcel id that carries a question mark. -/
def questionedParcel : PathParam := ⟨"12-34?fields=owner", by decide, by decide⟩

/-- What follows the question mark becomes the query of the upstream request. -/
theorem questionedParcel_splits : ¬ (PassesOn propertiesPath questionedParcel
    ((guestRequest (.get_property questionedParcel.val) 0).2.getProperty questionedParcel.val)) := by
  intro h
  have hquery := (asks_getProperty_iff.mp h).1
  exact absurd hquery (by decide)

/-! ### Query parameters -/

/-- The handler makes one upstream request, with these query parameters. A query that stands in the path of
the request is not among them (`NoQueryInPath`). -/
def ForwardsQuery (query_params : List (String × String)) (p : Prog Await AwaitReply Answer) : Prop :=
  p.Obeys (fun _ c => ∃ r, c = .upstream r ∧ r.params = query_params) (fun own _ => own.length = 1) []

theorem forwardsQuery_proxy_iff {query_params : List (String × String)} {r : UpstreamRequest}
    {detail : String} : ForwardsQuery query_params (proxy r detail) ↔ r.params = query_params := by
  constructor
  · intro h
    obtain ⟨r', heq, hparams⟩ := h.1
    exact Await.upstream.inj heq ▸ hparams
  · intro h
    refine ⟨⟨r, rfl, h⟩, fun reply => ?_⟩
    cases reply <;> rfl

/-- The paths of the upstream requests carry no query of their own. -/
def NoQueryInPath : Prog Await AwaitReply Answer → Prop :=
  Asks fun r => '?' ∉ r.path.toList

/-- **When the query is forwarded.** The four proxies send the query parameters of the client upstream
as they are if and only if no name occurs twice. Nothing is added to them by the path, unless a strategy
has a `?`. -/
theorem query_forwarded_iff (request : ApiRequest) (strategy : String)
    (query_params : List (String × String)) :
    (ForwardsQuery query_params (request.searchProperties query_params) ↔
        (query_params.map Prod.fst).Nodup) ∧
      (ForwardsQuery query_params (request.searchByAddress query_params) ↔
        (query_params.map Prod.fst).Nodup) ∧
      (ForwardsQuery query_params (request.searchByOwner query_params) ↔
        (query_params.map Prod.fst).Nodup) ∧
      (ForwardsQuery query_params (request.getTopList strategy query_params) ↔
        (query_params.map Prod.fst).Nodup) ∧
      NoQueryInPath (request.searchProperties query_params) ∧
      NoQueryInPath (request.searchByAddress query_params) ∧
      NoQueryInPath (request.searchByOwner query_params) ∧
      (NoQueryInPath (request.getTopList strategy query_params) ↔ '?' ∉ strategy.toList) := by
  have hlist : ∀ service path detail, ForwardsQuery query_params
      (proxy (request.listRequest service path query_params) detail) ↔
        (query_params.map Prod.fst).Nodup :=
    fun service path detail => forwardsQuery_proxy_iff.trans Dict.ofItems_eq_self_iff
  have hplain : ∀ service path detail, '?' ∉ path.toList →
      NoQueryInPath (proxy (request.listRequest service path query_params) detail) :=
    fun service path detail h => asks_proxy_iff.mpr h
  have hstrategy : '?' ∉ (topListUrl strategy).toList ↔ '?' ∉ strategy.toList := by
    have hbase : '?' ∉ "/api/v1/top-lists/".toList := by decide
    unfold topListUrl
    rw [String.toList_append, List.mem_append, not_or]
    exact and_iff_right hbase
  exact ⟨hlist _ _ _, hlist _ _ _, hlist _ _ _, hlist _ _ _, hplain _ _ _ (by decide), hplain _ _ _ (by decide),
    hplain _ _ _ (by decide), asks_proxy_iff.trans hstrategy⟩

/-- Of two counties that a client filters for, one arrives. -/
theorem repeated_county_dropped :
    ¬ ForwardsQuery [("county", "Pima"), ("county", "Leon")]
      ((guestRequest (.search_properties [("county", "Pima"), ("county", "Leon")]) 0).2.searchProperties
        [("county", "Pima"), ("county", "Leon")]) := by
  intro h
  have hparams := forwardsQuery_proxy_iff.mp h
  exact absurd hparams (by decide)

end Legacy

end TaxlienGateway
