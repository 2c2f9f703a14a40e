import MazeWar.Foundation.Runs
import MazeWar.Foundation.Program
import MazeWar.Foundation.Memory
import MazeWar.Foundation.Frame
import MazeWar.Foundation.Occupancy
import MazeWar.Foundation.Carriers
import MazeWar.Foundation.ByteOrder
import MazeWar.Foundation.LinkedList
import MazeWar.Foundation.Threads
import MazeWar.Foundation.Locking
import MazeWar.Foundation.Relabel
import MazeWar.Foundation.Reliance
import MazeWar.Foundation.Rows
import MazeWar.Foundation.RowThreads
import MazeWar.Foundation.Parallel
import MazeWar.Maze.Model
import MazeWar.Maze.Behavior
import MazeWar.Maze.Geometry
import MazeWar.Maze.View
import MazeWar.Maze.Search
import MazeWar.Maze.Target
import MazeWar.Maze.Motion
import MazeWar.Maze.Corridor
import MazeWar.Maze.Walk
import MazeWar.Maze.Independence
import MazeWar.Maze.Integrity
import MazeWar.Maze.Consistency
import MazeWar.Maze.Concurrency
import MazeWar.Maze.Laser
import MazeWar.Maze.Random
import MazeWar.Maze.Exclusion
import MazeWar.Maze.Symmetry
import MazeWar.Maze.Races
import MazeWar.Maze.Display
import MazeWar.Maze.Sight
import MazeWar.Maze.Reach
import MazeWar.Maze.Layout
import MazeWar.Maze.Parallel
import MazeWar.Startup.Template
import MazeWar.Startup.Loader
import MazeWar.Startup.Playable
import MazeWar.Startup.Listening
import MazeWar.Protocol.Model
import MazeWar.Protocol.Wire
import MazeWar.Protocol.Stream
import MazeWar.Protocol.Delivery
import MazeWar.Protocol.Sending
import MazeWar.Protocol.Buffer
import MazeWar.Protocol.Allocation
import MazeWar.Protocol.History
import MazeWar.Server.Model
import MazeWar.Server.Session
import MazeWar.Server.Placement
import MazeWar.Server.World
import MazeWar.Server.Interrupts
import MazeWar.Server.Replies
import MazeWar.Server.Deletion
import MazeWar.Registry.Model
import MazeWar.Registry.Behavior
import MazeWar.Registry.Refinement
import MazeWar.Registry.WellFormed
import MazeWar.Registry.Shutdown
import MazeWar.Registry.Waiting
import MazeWar.Registry.Traversal
import MazeWar.Registry.Descriptors
import MazeWar.Registry.Atomicity
import MazeWar.Registry.Blocks
import MazeWar.Server.Liveness
import MazeWar.Server.Conversation
import MazeWar.Server.Blocks
import MazeWar.Server.Handoff
