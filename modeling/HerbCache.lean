import HerbCache.Basic
import HerbCache.Tier
import HerbCache.Node
import HerbCache.Cachegroup.Entry
import HerbCache.Cachegroup.Cache
import HerbCache.Cachegroup.Write
import HerbCache.Cachegroup.Read
import HerbCache.Cachegroup.Missing
import HerbCache.Cachegroup.Frame
import HerbCache.Cachegroup.Run
import HerbCache.Cachegroup.Factory
import HerbCache.Cachegroup.Observe
import HerbCache.Cachegroup.Race
import HerbCache.Random
import HerbCache.Tomluser
import HerbCache.Sqluser.Race
import HerbCache.Marshaler
