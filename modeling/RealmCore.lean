import RealmCore.Keys
import RealmCore.Query.Row
import RealmCore.Query.ParentNode
import RealmCore.Query.NotNode
import RealmCore.Query.DoubleNot
import RealmCore.Query.StringIndex
import RealmCore.Query.StringEqual
import RealmCore.Query.Aggregate
import RealmCore.Links.Db
import RealmCore.Links.LinkMap
import RealmCore.Links.Backlinks
import RealmCore.Links.Consistency
import RealmCore.Links.Origins
import RealmCore.Links.Dependencies
import RealmCore.Links.BacklinkCount
import RealmCore.Links.Cascade
import RealmCore.Links.Assign
import RealmCore.Links.Mutations
import RealmCore.Lists.Sort
import RealmCore.Value.Comparator
import RealmCore.Value.Float
import RealmCore.Value.Mixed
import RealmCore.Store.Setters
import RealmCore.Store.SearchIndex
import RealmCore.Store.Compare
import RealmCore.Query.IndexedLookup
import RealmCore.Obj.Assign
import RealmCore.Json.Escape
import RealmCore.Json.ToJson
import RealmCore.Json.Grammar
import RealmCore.Json.WellFormed
import RealmCore.Util.Format
